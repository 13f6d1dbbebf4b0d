import DocumentMapper.Proofs.DottedPaths
import DocumentMapper.Proofs.Runs
import DocumentMapper.Settings

/-!
# Connection strings

A connection string is cut at its separators: at the first question mark into the location and the
parameters, the location at its first slash into the address and the database, the address at its
first colon into the host and the port. What stands in front of a separator does not have it, so a
string that is put together from such parts is cut into the same parts again.

The string that is written for settings names the host, the port, the database and the depth. It
says nothing of the two flags, although both have a place among the parameters.

## Main results

* `Settings.readUrl_parts`: what is read from a string that is put together from its parts;
* `Settings.exists_readUrl_iff`: the settings that some connection string gives;
* `Settings.readUrl_url_iff`: what is read from the string that is written for settings, and when
  these are the same settings.
-/

namespace DocumentMapper

open Number Text

namespace Text

/-! ### Cutting at the first separator -/

/-- A text that is not cut has no separator. -/
theorem splitFirst?_eq_none_iff {sep : Char} {cs : List Char} :
    splitFirst? sep cs = none ↔ sep ∉ cs := by
  induction cs with
  | nil => simp [splitFirst?]
  | cons c cs ih =>
    by_cases hc : c = sep
    · simp [splitFirst?, hc]
    · simp [splitFirst?, hc, ih, Ne.symm hc]

/-- A text is cut at its first separator. -/
theorem splitFirst?_eq_some_iff {sep : Char} {cs before after : List Char} :
    splitFirst? sep cs = some (before, after) ↔ cs = before ++ sep :: after ∧ sep ∉ before := by
  induction cs generalizing before with
  | nil => simp [splitFirst?]
  | cons c cs ih =>
    by_cases hc : c = sep
    · -- A part that does not have the separator is empty here.
      subst hc
      cases before with
      | nil => simp [splitFirst?, eq_comm]
      | cons b before =>
        simp only [splitFirst?, ↓reduceIte, Option.some.injEq, Prod.mk.injEq, reduceCtorEq,
          false_and, List.cons_append, List.cons.injEq, List.mem_cons, not_or, false_iff]
        rintro ⟨⟨rfl, -⟩, hne, -⟩
        exact hne rfl
    · cases before with
      | nil => simp [splitFirst?, hc]
      | cons b before =>
        simp only [splitFirst?, hc, ↓reduceIte, Option.map_eq_some_iff, Prod.mk.injEq,
          List.cons.injEq, Prod.exists, List.cons_append, List.mem_cons, not_or]
        constructor
        · rintro ⟨front, back, hcut, ⟨rfl, rfl⟩, rfl⟩
          obtain ⟨rfl, hfront⟩ := ih.mp hcut
          exact ⟨⟨rfl, rfl⟩, Ne.symm hc, hfront⟩
        · rintro ⟨⟨rfl, rfl⟩, -, hfront⟩
          exact ⟨before, after, ih.mpr ⟨rfl, hfront⟩, ⟨rfl, rfl⟩, rfl⟩

/-- Digits have no separator among them. -/
theorem not_mem_toDigits {c : Char} (h : c.isDigit = false) (n : Nat) : c ∉ Nat.toDigits 10 n :=
  fun hmem => Bool.false_ne_true
    (h.symm.trans (Nat.isDigit_of_mem_toDigits (by decide) (by decide) hmem))

/-- A number that was read is below its bound. -/
theorem natural?_lt {bound n : Nat} {cs : List Char} (h : natural? bound cs = some n) :
    n < bound := by
  simp only [natural?, Option.ite_none_right_eq_some, Bool.and_eq_true, decide_eq_true_eq,
    Option.some.injEq] at h
  obtain ⟨⟨-, hlt⟩, rfl⟩ := h
  exact hlt

end Text

namespace Settings

variable {s s' : Settings}

theorem cut?_eq_none_iff {sep : Char} {text : String} :
    cut? sep text = none ↔ sep ∉ text.toList := by
  rw [cut?, Option.map_eq_none_iff, splitFirst?_eq_none_iff]

/-- The parts of a text have the first separator between them. -/
theorem cut?_eq_some_iff {sep : Char} {text before after : String} :
    cut? sep text = some (before, after) ↔
      text.toList = before.toList ++ sep :: after.toList ∧ sep ∉ before.toList := by
  simp only [cut?, Option.map_eq_some_iff, Prod.exists, Prod.mk.injEq, splitFirst?_eq_some_iff]
  constructor
  · rintro ⟨front, back, hcut, rfl, rfl⟩
    simpa using hcut
  · rintro hcut
    exact ⟨before.toList, after.toList, hcut, String.ofList_toList, String.ofList_toList⟩

/-! ### Settings that can be read -/

/-- What holds of settings that are read from a connection string: no separator in the host, nor a
question mark in the database, which has a name, and numbers in their ranges. -/
structure Readable (s : Settings) : Prop where
  host : ':' ∉ s.host.toList ∧ '/' ∉ s.host.toList ∧ '?' ∉ s.host.toList
  port : s.port < portCount
  database : '?' ∉ s.database.toList
  database_ne : s.database ≠ ""
  maxDepth : s.maxDepth < wordCount

/-- A parameter keeps settings readable. -/
theorem Readable.withParameter (hs : s.Readable) {pair : String}
    (h : s.withParameter pair = .ok s') : s'.Readable := by
  unfold Settings.withParameter at h
  split at h
  · cases h
  · split at h
    · split at h
      · rename_i n hn
        cases h
        exact { hs with maxDepth := natural?_lt hn }
      · cases h
    · obtain ⟨flag, -, h⟩ := bind_eq_ok.mp h
      cases h
      exact { hs with }
    · obtain ⟨flag, -, h⟩ := bind_eq_ok.mp h
      cases h
      exact { hs with }
    · cases h

/-- The settings with all parameters of a connection string. -/
def withParameters (s : Settings) (parameters : String) : Except SettingError Settings :=
  ((splitAtChar '&' parameters.toList).filter fun p => !p.isEmpty).foldlM
    (fun s p => s.withParameter (String.ofList p)) s

/-- All parameters keep settings readable. -/
theorem Readable.withParameters (hs : s.Readable) {parameters : String}
    (h : s.withParameters parameters = .ok s') : s'.Readable := by
  unfold Settings.withParameters at h
  generalize (splitAtChar '&' parameters.toList).filter _ = pairs at h
  induction pairs generalizing s with
  | nil =>
    cases h
    exact hs
  | cons pair pairs ih =>
    rw [List.foldlM_cons] at h
    obtain ⟨t, ht, h⟩ := bind_eq_ok.mp h
    exact ih (hs.withParameter ht) h

/-- An address without the other separators keeps settings readable. -/
theorem Readable.withAddress (hs : s.Readable) {address : String}
    (hslash : '/' ∉ address.toList) (hmark : '?' ∉ address.toList)
    (h : s.withAddress address = .ok s') : s'.Readable := by
  unfold Settings.withAddress at h
  split at h
  · rename_i host port hcut
    obtain ⟨hparts, hcolon⟩ := cut?_eq_some_iff.mp hcut
    rw [hparts, List.mem_append, not_or] at hslash hmark
    split at h
    · rename_i n hn
      cases h
      exact { hs with host := ⟨hcolon, hslash.1, hmark.1⟩, port := natural?_lt hn }
    · cases h
  · rename_i hcut
    cases h
    split
    · exact hs
    · exact { hs with host := ⟨cut?_eq_none_iff.mp hcut, hslash, hmark⟩ }

/-- What is read from a connection string is readable. -/
theorem readable_of_readUrl {url : String} (h : readUrl url = .ok s) : s.Readable := by
  unfold readUrl at h
  split at h
  · cases h
  · rename_i rest _
    obtain ⟨location, parameters, hcut, hmark⟩ : ∃ location parameters,
        (cut? '?' rest).getD (rest, "") = (location, parameters) ∧ '?' ∉ location.toList := by
      cases hcut : cut? '?' rest with
      | none => exact ⟨rest, "", rfl, cut?_eq_none_iff.mp hcut⟩
      | some parts => exact ⟨parts.1, parts.2, rfl, (cut?_eq_some_iff.mp hcut).2⟩
    simp only [hcut] at h
    split at h
    · cases h
    · rename_i address database hlocation
      obtain ⟨hparts, hslash⟩ := cut?_eq_some_iff.mp hlocation
      rw [hparts, List.mem_append, List.mem_cons, not_or, not_or] at hmark
      split at h
      · cases h
      · rename_i hempty
        obtain ⟨t, ht, h⟩ := bind_eq_ok.mp h
        have hstart : ({ standard with database } : Settings).Readable :=
          { host := (by decide : ':' ∉ standard.host.toList ∧ '/' ∉ standard.host.toList ∧
              '?' ∉ standard.host.toList)
            port := (by decide : standard.port < portCount)
            database := hmark.2.2
            database_ne := by simpa using hempty
            maxDepth := (by decide : standard.maxDepth < wordCount) }
        exact (hstart.withAddress hslash hmark.1 ht).withParameters h

/-! ### Reading what was written -/

/-- **A connection string that is put together from its parts is cut into them again.** -/
theorem readUrl_parts (hs : s.Readable) (parameters : String) :
    readUrl (scheme ++ s.host ++ ":" ++ toString s.port ++ "/" ++ s.database ++ "?" ++ parameters) =
      { standard with host := s.host, port := s.port, database := s.database }.withParameters
        parameters := by
  obtain ⟨hcolon, hslash, hmark⟩ := hs.host
  have hportMark : '?' ∉ Nat.toDigits 10 s.port := not_mem_toDigits (by decide) s.port
  have hportSlash : '/' ∉ Nat.toDigits 10 s.port := not_mem_toDigits (by decide) s.port
  let address := s.host ++ ":" ++ toString s.port
  have hstart : dropStart? scheme (scheme ++ s.host ++ ":" ++ toString s.port ++ "/" ++ s.database
      ++ "?" ++ parameters) = some (address ++ "/" ++ s.database ++ "?" ++ parameters) :=
    dropStart?_eq_some_iff.mpr (by simp [address, String.append_assoc])
  have hlocation : cut? '?' (address ++ "/" ++ s.database ++ "?" ++ parameters) =
      some (address ++ "/" ++ s.database, parameters) :=
    cut?_eq_some_iff.mpr ⟨by simp,
      by simp [address, hmark, hs.database, hportMark]⟩
  have haddress : cut? '/' (address ++ "/" ++ s.database) = some (address, s.database) :=
    cut?_eq_some_iff.mpr ⟨by simp, by simp [address, hslash, hportSlash]⟩
  have hhost : cut? ':' address = some (s.host, toString s.port) :=
    cut?_eq_some_iff.mpr ⟨by simp [address], hcolon⟩
  have hname : s.database.isEmpty = false := by simpa using hs.database_ne
  simp only [readUrl, hstart, hlocation, haddress, hname, withAddress, hhost,
    natural?_toString hs.port, Option.getD_some]
  rfl

/-- Parameters are taken one after the other. -/
theorem withParameters_append (s : Settings) (p q : String) :
    s.withParameters (p ++ "&" ++ q) =
      s.withParameters p >>= fun t => t.withParameters q := by
  have hlist : (p ++ "&" ++ q).toList = p.toList ++ '&' :: q.toList := by simp
  simp only [withParameters, hlist, splitAtChar_append, List.filter_append, List.foldlM_append]

/-- A text without the separator is one parameter. -/
theorem withParameters_single {pair : String} (hpair : '&' ∉ pair.toList) (hne : pair ≠ "")
    (s : Settings) : s.withParameters pair = s.withParameter pair := by
  have hfilled : pair.toList.isEmpty = false := by simpa using hne
  simp only [withParameters, splitAtChar_of_not_mem hpair, List.filter_cons, hfilled,
    Bool.not_false, ↓reduceIte, List.filter_nil, List.foldlM_cons, List.foldlM_nil,
    String.ofList_toList, bind_pure]

/-- The depth is read from its parameter. -/
theorem withParameters_maxDepth {n : Nat} (h : n < wordCount) (s : Settings) :
    s.withParameters ("max_depth=" ++ toString n) = .ok { s with maxDepth := n } := by
  have hone : '&' ∉ ("max_depth=" ++ toString n).toList := by
    simpa using not_mem_toDigits (c := '&') (by decide) n
  have hcut : cut? '=' ("max_depth=" ++ toString n) = some ("max_depth", toString n) :=
    cut?_eq_some_iff.mpr ⟨by simp, by decide⟩
  rw [withParameters_single hone (by simp)]
  simp only [withParameter, hcut, natural?_toString h]
  rfl

/-- A flag is read from its text. -/
theorem readFlag_toString (key : String) (b : Bool) : readFlag key (toString b) = .ok b := by
  cases b <;> rfl

/-- The flags are read from their parameters. -/
theorem withParameters_flags (s : Settings) (autoDereference logQueries : Bool) :
    s.withParameters (("auto_dereference=" ++ toString autoDereference) ++ "&" ++
        ("log_queries=" ++ toString logQueries)) =
      .ok { s with autoDereference, logQueries } := by
  have hauto : cut? '=' ("auto_dereference=" ++ toString autoDereference) =
      some ("auto_dereference", toString autoDereference) :=
    cut?_eq_some_iff.mpr ⟨by simp, by decide⟩
  have hlog : cut? '=' ("log_queries=" ++ toString logQueries) =
      some ("log_queries", toString logQueries) :=
    cut?_eq_some_iff.mpr ⟨by simp, by decide⟩
  have hone : ∀ b : Bool, '&' ∉ (toString b).toList := by decide
  rw [withParameters_append,
    withParameters_single (by simpa using hone autoDereference) (by simp)]
  simp only [withParameter, hauto, readFlag_toString]
  show withParameters { s with autoDereference } ("log_queries=" ++ toString logQueries) = _
  rw [withParameters_single (by simpa using hone logQueries) (by simp)]
  simp only [withParameter, hlog, readFlag_toString]
  rfl

/-- The settings without their flags. -/
def withoutFlags (s : Settings) : Settings :=
  { s with autoDereference := false, logQueries := false }

/-- **The string that is written for readable settings gives them without their flags.** -/
theorem readUrl_url (hs : s.Readable) : readUrl s.url = .ok s.withoutFlags := by
  have hurl : s.url = scheme ++ s.host ++ ":" ++ toString s.port ++ "/" ++ s.database ++ "?" ++
      ("max_depth=" ++ toString s.maxDepth) :=
    String.toList_injective (by simp [url])
  rw [hurl, readUrl_parts hs, withParameters_maxDepth hs.maxDepth]
  rfl

/-- The connection string with the flags, too. -/
def fullUrl (s : Settings) : String :=
  s.url ++ "&" ++ (("auto_dereference=" ++ toString s.autoDereference) ++ "&" ++
    ("log_queries=" ++ toString s.logQueries))

/-- A string with the flags gives the settings with them. -/
theorem readUrl_fullUrl (hs : s.Readable) : readUrl s.fullUrl = .ok s := by
  have hurl : s.fullUrl = scheme ++ s.host ++ ":" ++ toString s.port ++ "/" ++ s.database ++ "?" ++
      (("max_depth=" ++ toString s.maxDepth) ++ "&" ++
        (("auto_dereference=" ++ toString s.autoDereference) ++ "&" ++
          ("log_queries=" ++ toString s.logQueries))) :=
    String.toList_injective (by simp [fullUrl, url])
  rw [hurl, readUrl_parts hs, withParameters_append, withParameters_maxDepth hs.maxDepth]
  exact withParameters_flags _ s.autoDereference s.logQueries

/-- **The settings that some connection string gives** are the readable ones, whatever their flags
are. -/
theorem exists_readUrl_iff : (∃ url, readUrl url = .ok s) ↔ s.Readable :=
  ⟨fun ⟨_, h⟩ => readable_of_readUrl h, fun hs => ⟨s.fullUrl, readUrl_fullUrl hs⟩⟩

/-- **The string that is written for settings that were read gives them without their flags**, and
so the same settings exactly when both flags are off. -/
theorem readUrl_url_iff {url : String} (h : readUrl url = .ok s) :
    readUrl s.url = .ok s.withoutFlags ∧
      (readUrl s.url = .ok s ↔ s.autoDereference = false ∧ s.logQueries = false) := by
  have hread := readUrl_url (readable_of_readUrl h)
  refine ⟨hread, ?_⟩
  rw [hread, Except.ok.injEq]
  constructor
  · intro hsame
    rw [← hsame]
    exact ⟨rfl, rfl⟩
  · rintro ⟨hauto, hlog⟩
    obtain ⟨host, port, database, maxDepth, autoDereference, logQueries⟩ := s
    obtain rfl : autoDereference = false := hauto
    obtain rfl : logQueries = false := hlog
    rfl

/-- The settings of a blog whose queries are logged. -/
def loggedBlog : Settings where
  host := "db.local"
  port := 27018
  database := "blog"
  maxDepth := 2
  autoDereference := false
  logQueries := true

theorem loggedBlog_readable : loggedBlog.Readable where
  host := by decide
  port := by decide
  database := by decide
  database_ne := by decide
  maxDepth := by decide

theorem readUrl_url_iff_blog : readUrl loggedBlog.fullUrl = .ok loggedBlog ∧
    readUrl loggedBlog.url = .ok loggedBlog.withoutFlags ∧
    (readUrl loggedBlog.url = .ok loggedBlog ↔
      loggedBlog.autoDereference = false ∧ loggedBlog.logQueries = false) := by
  have hread := readUrl_fullUrl loggedBlog_readable
  exact ⟨hread, readUrl_url_iff hread⟩

/-- Settings with a flag that is on are not read back from the string that is written for them. -/
theorem loggedBlog_not_read_back :
    ¬ ∀ (url : String) (s : Settings), readUrl url = .ok s → readUrl s.url = .ok s := by
  intro h
  have hback := h _ _ (readUrl_fullUrl loggedBlog_readable)
  rw [readUrl_url loggedBlog_readable, Except.ok.injEq] at hback
  exact absurd (congrArg logQueries hback) Bool.false_ne_true

end Settings

end DocumentMapper
