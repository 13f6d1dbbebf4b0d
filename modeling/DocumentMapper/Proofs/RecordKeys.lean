import Mathlib.Data.List.Forall2
import DocumentMapper.Proofs.DottedPaths
import DocumentMapper.Proofs.KeptByUpdates
import DocumentMapper.Proofs.SingleUpdate

/-!
# Keys of stored records

The records of a collection are told apart by their ids. An insertion takes a record only under an
id that is new in its collection, and so does the insertion at the end of an update. An update does
not look at the ids of the records that it changes: it keeps them apart exactly if it keeps the id
of every single record.

## Main results

* `Store.Sound.insert`, `Store.Sound.upsert`: insertions keep the ids apart, whatever is inserted;
* `keepsKey_of_writesBesideKey`: an update without a path that begins with the id keeps every id;
* `Store.reached_keyed_iff`: the ids are apart in every store that can be reached exactly if every
  allowed update keeps the id of a record.
-/

namespace DocumentMapper

open Text

/-! ### Keys that are apart -/

/-- Every record has an id, and no two records have equal ids. -/
structure KeysApart (docs : List Object) : Prop where
  keyed : ∀ doc ∈ docs, doc.id?.isSome
  apart : docs.Pairwise fun a b => ∀ i ∈ a.id?, ∀ j ∈ b.id?, i.equal j = false

/-- The content of the id of a record. -/
def Object.keyContent (doc : Object) : Option Content :=
  doc.id?.map Json.content

theorem Object.id?_eq_some {doc : Object} {id : Json} :
    doc.id? = some id ↔ doc.get? idKey = some id ∧ id.isNull = false := by
  simp [Object.id?]

/-- The id of a well-formed record is well formed. -/
theorem Object.wellFormed_id? {doc : Object} {id : Json} (hdoc : doc.WellFormed)
    (h : doc.id? = some id) : id.WellFormed :=
  (Json.wellFormed_object.mp hdoc).2 _ (Entries.mem_of_get? (id?_eq_some.mp h).1)

/-- Records have equal ids exactly when the contents of their ids are the same. -/
theorem Object.equal_id?_iff {a b : Object} {i j : Json} (ha : a.WellFormed) (hb : b.WellFormed)
    (hi : a.id? = some i) (hj : b.id? = some j) :
    i.equal j = true ↔ a.keyContent = b.keyContent := by
  rw [Json.equal_iff_content i j (wellFormed_id? ha hi) (wellFormed_id? hb hj)]
  simp [keyContent, hi, hj]

/-- Null alone has the content of null. -/
theorem Json.isNull_iff_content {j : Json} : j.isNull = true ↔ j.content = .null := by
  cases j <;> simp [Json.isNull, Json.content]

/-- Records with the same content have the same id. -/
theorem Object.keyContent_congr {a b : Object} (h : a.content = b.content) :
    a.keyContent = b.keyContent := by
  have hentry : (a.get? idKey).map Json.content = (b.get? idKey).map Json.content := by
    rw [← Entries.get?_content, ← Entries.get?_content, Content.object.inj h]
  unfold keyContent id?
  cases hi : a.get? idKey with
  | none =>
    rw [hi] at hentry
    rw [Option.map_eq_none_iff.mp hentry.symm]
  | some i =>
    rw [hi] at hentry
    obtain ⟨j, hj, hcontent⟩ := Option.map_eq_some_iff.mp hentry.symm
    have hnull : i.isNull = j.isNull := by
      rw [Bool.eq_iff_iff, Json.isNull_iff_content, Json.isNull_iff_content, hcontent]
    simp only [hj, Option.filter_some, hnull]
    split <;> simp [hcontent]

/-- Ids are apart exactly when their contents are there and different. -/
theorem keysApart_iff {docs : List Object} (hdocs : ∀ doc ∈ docs, doc.WellFormed) :
    KeysApart docs ↔
      none ∉ docs.map Object.keyContent ∧ (docs.map Object.keyContent).Nodup := by
  constructor
  · intro ⟨hkeyed, hapart⟩
    refine ⟨fun hmem => ?_, ?_⟩
    · obtain ⟨doc, hdoc, hnone⟩ := List.mem_map.mp hmem
      have := hkeyed doc hdoc
      simp_all [Object.keyContent]
    · refine List.pairwise_map.mpr (hapart.imp_of_mem fun {a b} ha hb hab heq => ?_)
      obtain ⟨i, hi⟩ := Option.isSome_iff_exists.mp (hkeyed a ha)
      obtain ⟨j, hj⟩ := Option.isSome_iff_exists.mp (hkeyed b hb)
      have hequal := (Object.equal_id?_iff (hdocs a ha) (hdocs b hb) hi hj).mpr heq
      rw [hab i hi j hj] at hequal
      cases hequal
  · intro ⟨hnone, hnodup⟩
    refine ⟨fun doc hdoc => ?_,
      (List.pairwise_map.mp hnodup).imp_of_mem fun ha hb hab i hi j hj => ?_⟩
    · cases hid : doc.id? with
      | some id => rfl
      | none => exact absurd (List.mem_map.mpr ⟨doc, hdoc, by simp [Object.keyContent, hid]⟩) hnone
    · exact Bool.eq_false_iff.mpr fun hequal =>
        hab ((Object.equal_id?_iff (hdocs _ ha) (hdocs _ hb) hi hj).mp hequal)

/-- Records that keep their ids stay apart. -/
theorem KeysApart.of_keyContent {docs docs' : List Object} (hdocs : ∀ doc ∈ docs, doc.WellFormed)
    (hdocs' : ∀ doc ∈ docs', doc.WellFormed)
    (hkeys : docs'.map Object.keyContent = docs.map Object.keyContent) (h : KeysApart docs) :
    KeysApart docs' := by
  rw [keysApart_iff hdocs', hkeys]
  exact (keysApart_iff hdocs).mp h

/-- A record with a new id is apart from the others. -/
theorem KeysApart.append {docs : List Object} {doc : Object} {id : Json} (h : KeysApart docs)
    (hid : doc.id? = some id)
    (hnew : docs.any (fun d => (d.get? idKey).any fun present => present.equal id) = false) :
    KeysApart (docs ++ [doc]) := by
  refine ⟨fun d hd => ?_, List.pairwise_append.mpr ⟨h.apart, List.pairwise_singleton _ _, ?_⟩⟩
  · rcases List.mem_append.mp hd with hd | hd
    · exact h.keyed d hd
    · rw [List.mem_singleton.mp hd, hid]
      rfl
  · intro a ha b hb i hi j hj
    obtain rfl := List.mem_singleton.mp hb
    obtain rfl : id = j := Option.some.inj (hid.symm.trans hj)
    have hget := (Object.id?_eq_some.mp hi).1
    have hany := List.any_eq_false.mp hnew a ha
    simpa [hget] using hany

/-! ### Insertions -/

namespace Store

/-- The records of every collection have ids that are apart. -/
def Keyed (s : Store) : Prop :=
  ∀ name, KeysApart (s.documents name)

/-- Records are well formed and have ids that are apart. -/
structure Sound (s : Store) : Prop where
  wellFormed : ∀ name, ∀ doc ∈ s.documents name, doc.WellFormed
  keyed : s.Keyed

theorem sound_empty : Store.empty.Sound where
  wellFormed _ _ h := absurd h List.not_mem_nil
  keyed _ := ⟨fun _ h => absurd h List.not_mem_nil, List.Pairwise.nil⟩

namespace Sound

variable {s t : Store} {collection : String}

theorem setDocuments (h : s.Sound) (collection : String) {docs : List Object}
    (hdocs : ∀ doc ∈ docs, doc.WellFormed) (hkeys : KeysApart docs) :
    (s.setDocuments collection docs).Sound := by
  constructor
  · intro name
    by_cases hname : collection = name
    · subst hname
      rwa [documents_setDocuments_self]
    · rw [documents_setDocuments_of_ne s docs hname]
      exact h.wellFormed name
  · intro name
    by_cases hname : collection = name
    · subst hname
      rwa [documents_setDocuments_self]
    · rw [documents_setDocuments_of_ne s docs hname]
      exact h.keyed name

/-- A record that is taken under its id has a new id. -/
theorem appendNew (h : s.Sound) {doc : Object} {id : Json} (hdoc : doc.WellFormed)
    (hid : doc.id? = some id) (happend : s.appendNew collection id doc = .ok t) : t.Sound := by
  obtain ⟨hnew, rfl⟩ := appendNew_eq_ok.mp happend
  refine h.setDocuments collection (fun d hd => ?_) ((h.keyed collection).append hid hnew)
  rcases List.mem_append.mp hd with hd | hd
  · exact h.wellFormed collection d hd
  · rwa [List.mem_singleton.mp hd]

end Sound

end Store

/-- A record with a given id in front has this id. -/
theorem Object.id?_withIdFirst (doc : Object) {id : Json} (hid : id.isNull = false) :
    (doc.withIdFirst id).id? = some id :=
  id?_eq_some.mpr ⟨by simp [withIdFirst, Entries.get?], hid⟩

/-- A record with a well-formed id in front is well formed. -/
theorem Object.wellFormed_withIdFirst {doc : Object} {id : Json} (hdoc : doc.WellFormed)
    (hid : id.WellFormed) : (doc.withIdFirst id).WellFormed := by
  obtain ⟨hkeys, hvalues⟩ := Json.wellFormed_object.mp hdoc
  refine Json.wellFormed_object.mpr ⟨List.nodup_cons.mpr ⟨?_, ?_⟩, fun e he => ?_⟩
  · simp
  · exact hkeys.sublist (List.filter_sublist.map _)
  · rcases List.mem_cons.mp he with rfl | he
    · exact hid
    · exact hvalues e (List.mem_filter.mp he).1

namespace Store.Sound

variable {s t : Store} {collection : String}

/-- **Insertions keep the ids apart**, also one that is refused. -/
theorem insert {docs : List Object} (h : s.Sound) (hdocs : ∀ doc ∈ docs, doc.WellFormed) :
    (Store.insert collection docs s).2.Sound := by
  induction docs generalizing s with
  | nil => exact h
  | cons doc rest ih =>
    obtain ⟨hdoc, hrest⟩ := List.forall_mem_cons.mp hdocs
    cases hid : doc.id? with
    | some id =>
      simp only [Store.insert, hid]
      split
      · rename_i t happend
        exact ih (h.appendNew hdoc hid happend) hrest
      · exact h
    | none =>
      have hissued : s.issue.2.Sound := ⟨h.wellFormed, h.keyed⟩
      have hmade : s.issue.1.WellFormed := trivial
      simp only [Store.insert, hid]
      split
      · rename_i t happend
        exact ih (hissued.appendNew (Object.wellFormed_withIdFirst hdoc hmade)
          (doc.id?_withIdFirst rfl) happend) hrest
      · exact hissued

end Store.Sound

/-! ### Well-formed outcomes -/

/-- An update of a well-formed record leads to a well-formed one, also where it fails. -/
theorem Object.wellFormed_apply {doc update : Object} (hdoc : doc.WellFormed)
    (hupdate : update.WellFormed) (filter : Object) (inserting : Bool) :
    (doc.apply filter update inserting).doc.WellFormed := by
  unfold Object.apply
  split
  · exact kept_wellFormed.applyOperators (Json.wellFormed_object.mp hupdate).2
      (fun _ _ _ _ _ _ _ _ => ⟨trivial, fun _ _ _ => trivial⟩) hdoc
  · simp only [replaceBy]
    split
    · rename_i id hid
      obtain ⟨hkeys, hvalues⟩ := Json.wellFormed_object.mp hupdate
      refine Json.wellFormed_object.mpr ⟨Entries.nodup_insert hkeys _ id, fun e he => ?_⟩
      rcases Entries.mem_insert he with he | rfl
      · exact hvalues e he
      · exact (Json.wellFormed_object.mp hdoc).2 _ (Entries.mem_of_get? hid)
    · exact hupdate

/-- The value that a well-formed condition demands is well formed. -/
theorem wellFormed_demandedValue? {condition v : Json} (hcondition : condition.WellFormed)
    (h : demandedValue? condition = some v) : v.WellFormed := by
  unfold demandedValue? at h
  split at h
  · split at h
    · exact (Json.wellFormed_object.mp hcondition).2 _ (Entries.mem_of_get? h)
    · cases h
      exact hcondition
  · cases h
    exact hcondition

/-- The document that a well-formed filter demands is well formed. -/
theorem wellFormed_seedOf {filter : Object} (hfilter : filter.WellFormed) :
    (seedOf filter).WellFormed := by
  have hvalues := (Json.wellFormed_object.mp hfilter).2
  refine List.foldlRecOn filter _ (motive := fun seed : Object => seed.WellFormed)
    (Json.wellFormed_object.mpr (by simp)) fun seed hseed e he => ?_
  split
  · exact hseed
  · split
    · rename_i v hv
      unfold Object.place
      split
      · rename_i changed hset
        exact Object.wellFormed_setPath hseed (wellFormed_demandedValue? (hvalues e he) hv) hset
      · exact hseed
    · exact hseed

/-- **An insertion by an update keeps the ids apart**, whatever the update does to the id. -/
theorem Store.Sound.upsert {s : Store} {collection : String} {filter update : Object}
    (h : s.Sound) (hfilter : filter.WellFormed) (hupdate : update.WellFormed) :
    (s.upsert collection filter update).2.Sound := by
  have hdoc := Object.wellFormed_apply (wellFormed_seedOf hfilter) hupdate filter true
  simp only [Store.upsert]
  generalize (seedOf filter).apply filter update true = applied at hdoc ⊢
  split
  · exact h
  · cases hid : applied.doc.id? with
    | some id =>
      have hdoc' := Object.wellFormed_withIdFirst hdoc (Object.wellFormed_id? hdoc hid)
      have hid' := applied.doc.id?_withIdFirst (Object.id?_eq_some.mp hid).2
      simp only
      split
      · rename_i t happend
        exact h.appendNew hdoc' hid' happend
      · exact h
    | none =>
      have hissued : s.issue.2.Sound := ⟨h.wellFormed, h.keyed⟩
      have hmade : s.issue.1.WellFormed := trivial
      simp only
      split
      · rename_i t happend
        exact hissued.appendNew (Object.wellFormed_withIdFirst hdoc hmade)
          (applied.doc.id?_withIdFirst rfl) happend
      · exact hissued

/-! ### Changes of records -/

/-- An update keeps the id of a record if a record that meets the filter has an equal id
afterwards, whenever the update succeeds on it. -/
def KeepsKey (update : Object) : Prop :=
  ∀ (filter doc : Object) (id : Json), filter.WellFormed → doc.WellFormed → doc.id? = some id →
    doc.meets filter = .ok true → (doc.apply filter update false).failure = none →
      ∃ id', (doc.apply filter update false).doc.id? = some id' ∧ id.equal id' = true

/-- What an update can have made of a record. -/
inductive ChangesTo (filter update doc : Object) : Object → Prop
  | same : ChangesTo filter update doc doc
  | applied (hmeets : doc.meets filter = .ok true)
      (hok : (doc.apply filter update false).failure = none) :
      ChangesTo filter update doc (doc.apply filter update false).doc

/-- **An update changes some records one by one**, also where it fails halfway. -/
theorem changesTo_changeMeeting (filter update : Object) (multi : Bool) (docs : List Object)
    (tally : Tally) :
    List.Forall₂ (ChangesTo filter update) docs
      (changeMeeting filter update multi docs tally).2 := by
  have hsame : ∀ docs, List.Forall₂ (ChangesTo filter update) docs docs := fun docs =>
    List.forall₂_same.mpr fun _ _ => .same
  induction docs generalizing tally with
  | nil => exact .nil
  | cons doc rest ih =>
    simp only [changeMeeting]
    split
    · exact hsame _
    · exact .cons .same (ih tally)
    · rename_i hmeets
      split
      · exact hsame _
      · rename_i changed hresult
        have hchange : ChangesTo filter update doc
            (if changed then (doc.apply filter update false).doc else doc) := by
          cases changed with
          | false => exact .same
          | true =>
            refine .applied hmeets ?_
            unfold Applied.result at hresult
            split at hresult
            · cases hresult
            · assumption
        cases multi with
        | true => exact .cons hchange (ih _)
        | false => exact .cons hchange (hsame rest)

/-- A change keeps a record well formed, and an update that keeps the ids keeps its id. -/
theorem ChangesTo.sound {filter update doc doc' : Object} (h : ChangesTo filter update doc doc')
    (hfilter : filter.WellFormed) (hupdate : update.WellFormed) (hkeeps : KeepsKey update)
    (hdoc : doc.WellFormed) (hid : doc.id?.isSome) :
    doc'.WellFormed ∧ doc'.keyContent = doc.keyContent := by
  cases h with
  | same => exact ⟨hdoc, rfl⟩
  | applied hmeets hok =>
    have hdoc' := Object.wellFormed_apply hdoc hupdate filter false
    obtain ⟨id, hid⟩ := Option.isSome_iff_exists.mp hid
    obtain ⟨id', hid', hequal⟩ := hkeeps filter doc id hfilter hdoc hid hmeets hok
    exact ⟨hdoc', ((Object.equal_id?_iff hdoc hdoc' hid hid').mp hequal).symm⟩

/-- Records that are changed one by one keep their ids. -/
theorem map_keyContent_of_changesTo {filter update : Object} {docs docs' : List Object}
    (hfilter : filter.WellFormed) (hupdate : update.WellFormed) (hkeeps : KeepsKey update)
    (hdocs : ∀ doc ∈ docs, doc.WellFormed ∧ doc.id?.isSome)
    (h : List.Forall₂ (ChangesTo filter update) docs docs') :
    (∀ doc ∈ docs', doc.WellFormed) ∧
      docs'.map Object.keyContent = docs.map Object.keyContent := by
  induction h with
  | nil => exact ⟨fun _ h => absurd h List.not_mem_nil, rfl⟩
  | cons hchange _ ih =>
    obtain ⟨⟨hdoc, hid⟩, hrest⟩ := List.forall_mem_cons.mp hdocs
    obtain ⟨hdoc', hkey⟩ := hchange.sound hfilter hupdate hkeeps hdoc hid
    obtain ⟨hrest', hkeys⟩ := ih hrest
    refine ⟨List.forall_mem_cons.mpr ⟨hdoc', hrest'⟩, ?_⟩
    rw [List.map_cons, List.map_cons, hkey, hkeys]

/-- **An update that keeps the ids keeps them apart**, whether it succeeds or fails. -/
theorem Store.Sound.update {s : Store} {filter update : Object} (h : s.Sound)
    (hfilter : filter.WellFormed) (hupdate : update.WellFormed) (hkeeps : KeepsKey update)
    (collection : String) (options : UpdateOptions) :
    (s.update collection filter update options).2.Sound := by
  have hchanges := changesTo_changeMeeting filter update options.multi (s.documents collection)
    ⟨0, 0⟩
  have hdocs : ∀ doc ∈ s.documents collection, doc.WellFormed ∧ doc.id?.isSome := fun doc hdoc =>
    ⟨h.wellFormed collection doc hdoc, (h.keyed collection).keyed doc hdoc⟩
  obtain ⟨hdocs', hkeys⟩ := map_keyContent_of_changesTo hfilter hupdate hkeeps hdocs hchanges
  have hkeyed := (h.keyed collection).of_keyContent (h.wellFormed collection) hdocs' hkeys
  have hchanged := h.setDocuments collection hdocs' hkeyed
  simp only [Store.update]
  split
  · exact hchanged
  · split
    · exact hchanged.upsert hfilter hupdate
    · exact hchanged

/-! ### Updates beside the id -/

/-- No operator of an update takes effect in a stored record at a path that begins with the id, and
none moves a value to such a path. An update without an operator has no paths. -/
def WritesBesideKey (update : Object) : Prop :=
  (update.any fun e => beginsWith "$" e.1) = true →
    ∀ op entries, (op, Json.object entries) ∈ update → op ≠ "$setOnInsert" →
      ∀ e ∈ entries, (dottedSegments e.1).head? ≠ some idKey ∧
        (op = "$rename" → ∀ target, e.2 = .string target →
          (dottedSegments target).head? ≠ some idKey)

/-- The digits of a position are no id. -/
theorem toString_ne_idKey (n : Nat) : toString n ≠ idKey := by
  intro h
  have hdigits : (toString n).toList = Nat.toDigits 10 n := Nat.toList_repr
  have hmem : '_' ∈ (toString n).toList := by
    rw [h]
    decide
  rw [hdigits] at hmem
  exact absurd (Nat.isDigit_of_mem_toDigits (by decide) (by decide) hmem) (by decide)

/-- A position in a path does not make it begin with the id. -/
theorem head?_positionalPath {before filter : Object} {rawPath path : String}
    (hraw : (dottedSegments rawPath).head? ≠ some idKey)
    (h : positionalPath before filter rawPath = .ok path) :
    (dottedSegments path).head? ≠ some idKey := by
  simp only [positionalPath] at h
  split at h
  · cases h
    exact hraw
  · rename_i segment rest hrest
    obtain ⟨index, -, hpath⟩ := bind_eq_ok.mp h
    cases hpath
    have hfront : (dottedSegments rawPath).takeWhile (· ≠ "$") <+: dottedSegments rawPath :=
      List.takeWhile_prefix _
    have hsegments : ∀ s ∈ (dottedSegments rawPath).takeWhile (· ≠ "$") ++ toString index :: rest,
        IsSegment s := by
      intro s hs
      rcases List.mem_append.mp hs with hs | hs
      · exact isSegment_of_mem_dottedSegments (hfront.subset hs)
      · rcases List.mem_cons.mp hs with rfl | hs
        · exact isSegment_toString index
        · have hmem : s ∈ dottedSegments rawPath :=
            List.mem_of_mem_drop (hrest ▸ List.mem_cons_of_mem _ hs)
          exact isSegment_of_mem_dottedSegments hmem
    rw [dottedSegments_dotted (by simp) hsegments]
    cases hcases : (dottedSegments rawPath).takeWhile (· ≠ "$") with
    | nil => simpa using toString_ne_idKey index
    | cons first more =>
      rw [hcases] at hfront
      obtain ⟨behind, hbehind⟩ := hfront
      rw [← hbehind] at hraw
      simpa using hraw

/-- **An update beside the id leaves the id as it is.** A replacement takes over the id of the
record that it replaces. -/
theorem keepsKey_of_writesBesideKey {update : Object} (hupdate : WritesBesideKey update) :
    KeepsKey update := by
  intro filter doc id _ hdoc hid hmeets hok
  have hget : (doc.apply filter update false).doc.get? idKey = doc.get? idKey := by
    unfold Object.apply
    split
    · rename_i hoperators
      refine (kept_entry idKey _).applyOperators (fun _ _ => trivial) ?_ rfl
      intro op entries hop e he path hpath
      refine fun htakes => ?_
      have hplain : op ≠ "$setOnInsert" := htakes.resolve_right (by decide)
      obtain ⟨hraw, htarget⟩ := hupdate hoperators op entries hop hplain e he
      exact ⟨head?_positionalPath hraw hpath, htarget⟩
    · have hpresent : doc.get? "_id" = some id := (Object.id?_eq_some.mp hid).1
      simp only [Object.replaceBy, hpresent]
      exact (Entries.get?_insert_self update idKey id).trans hpresent.symm
  refine ⟨id, ?_, (Object.wellFormed_id? hdoc hid).equal_self⟩
  rw [Object.id?, hget]
  exact hid

/-! ### Stores that can be reached -/

namespace Store

/-- The stores that insertions, and updates of an allowed kind, lead to from the empty store,
whether they succeed or fail. -/
inductive Reached (Allowed : Object → Prop) : Store → Prop
  | empty : Reached Allowed .empty
  | insert {s : Store} (h : Reached Allowed s) (collection : String) {docs : List Object}
      (hdocs : ∀ doc ∈ docs, doc.WellFormed) : Reached Allowed (Store.insert collection docs s).2
  | update {s : Store} (h : Reached Allowed s) (collection : String) {filter update : Object}
      (options : UpdateOptions) (hfilter : filter.WellFormed) (hupdate : update.WellFormed)
      (hallowed : Allowed update) : Reached Allowed (s.update collection filter update options).2

/-- Updates that keep the ids of records lead to sound stores only. -/
theorem Reached.sound {Allowed : Object → Prop}
    (hkeeps : ∀ update, Allowed update → update.WellFormed → KeepsKey update) {s : Store}
    (h : Reached Allowed s) : s.Sound := by
  induction h with
  | empty => exact sound_empty
  | insert _ collection hdocs ih => exact ih.insert hdocs
  | update _ collection options hfilter hupdate hallowed ih =>
    exact ih.update hfilter hupdate (hkeeps _ hallowed hupdate) collection options

/-- A record with an id that is new in its collection is added as it is. -/
theorem documents_insert_of_id? {s : Store} {collection : String} {doc : Object} {id : Json}
    (hid : doc.id? = some id) (hnew : s.hasId collection id = false) :
    (Store.insert collection [doc] s).2.documents collection = s.documents collection ++ [doc] := by
  have happend : s.appendNew collection id doc = .ok (s.append collection doc) :=
    appendNew_eq_ok.mpr ⟨hnew, rfl⟩
  simp [Store.insert, hid, happend, append]

end Store

/-- An update that ends with a different document has that document as its outcome. -/
theorem Object.updated_of_not_equal {doc filter update : Object}
    (hok : (doc.apply filter update false).failure = none)
    (hchanged : (doc.apply filter update false).doc.equal doc = false) :
    doc.updated filter update = .ok (doc.apply filter update false).doc := by
  simp [Object.updated, Applied.result, hok, hchanged, Except.map, pure, Except.pure]

/-- **Where the ids are apart in every store that can be reached, every allowed update keeps the id
of a record.** Otherwise the record can be inserted, and behind it one with the id that it gets, and
then the first of them updated. -/
theorem keepsKey_of_keyed {Allowed : Object → Prop} {update : Object}
    (hkeyed : ∀ s, Store.Reached Allowed s → s.Keyed) (hallowed : Allowed update)
    (hupdate : update.WellFormed) : KeepsKey update := by
  intro filter doc id hfilter hdoc hid hmeets hok
  have hafter := Object.wellFormed_apply hdoc hupdate filter false
  cases hsame : (doc.apply filter update false).doc.equal doc with
  | true =>
    have hkey := Object.keyContent_congr ((Object.equal_iff_content hafter hdoc).mp hsame)
    obtain ⟨id', hid', -⟩ : ∃ id', (doc.apply filter update false).doc.id? = some id' ∧
        id'.content = id.content := by
      simpa [Object.keyContent, hid] using hkey
    exact ⟨id', hid', (Object.equal_id?_iff hdoc hafter hid hid').mpr hkey.symm⟩
  | false =>
    have hupdated := Object.updated_of_not_equal hok hsame
    generalize (doc.apply filter update false).doc = after at hafter hupdated ⊢
    have hfront : ∀ (others : List Object) (s : Store), Store.Reached Allowed s →
        s.documents "rows" = doc :: others → KeysApart (after :: others) := by
      intro others s hs hdocs
      have hfirst : FirstMeeting filter (s.documents "rows") 0 :=
        ⟨⟨doc, by simp [hdocs], hmeets⟩, by simp⟩
      obtain ⟨result, hresult⟩ := Store.update_of_first hfirst (by simp [hdocs]) hupdated
      have hafterwards := hkeyed _ (hs.update "rows" ⟨false, false⟩ hfilter hupdate hallowed) "rows"
      rw [hresult] at hafterwards
      simpa [hdocs] using hafterwards
    have hdocs : ∀ d ∈ [doc], d.WellFormed := by simpa using hdoc
    have hone : Store.Reached Allowed (Store.insert "rows" [doc] .empty).2 :=
      Store.Reached.empty.insert "rows" hdocs
    have hstored : (Store.insert "rows" [doc] .empty).2.documents "rows" = [doc] :=
      Store.documents_insert_of_id? hid rfl
    obtain ⟨id', hid'⟩ :=
      Option.isSome_iff_exists.mp ((hfront [] _ hone hstored).keyed after List.mem_cons_self)
    refine ⟨id', hid', ?_⟩
    cases hequal : id.equal id' with
    | true => rfl
    | false =>
      have hwf' := Object.wellFormed_id? hafter hid'
      have hother : Object.id? [(idKey, id')] = some id' :=
        Object.id?_eq_some.mpr ⟨by simp [Entries.get?], (Object.id?_eq_some.mp hid').2⟩
      have hothers : ∀ d ∈ [[(idKey, id')]], Object.WellFormed d := by
        simpa [Object.WellFormed, Json.wellFormed_object] using hwf'
      have hnew : (Store.insert "rows" [doc] .empty).2.hasId "rows" id' = false := by
        simp [Store.hasId, hstored, (Object.id?_eq_some.mp hid).1, hequal]
      have hboth := Store.documents_insert_of_id? hother hnew
      rw [hstored] at hboth
      have hapart := (hfront _ _ (hone.insert "rows" hothers) hboth).apart
      have hfalse := List.rel_of_pairwise_cons hapart List.mem_cons_self id' hid' id' hother
      rw [hwf'.equal_self] at hfalse
      cases hfalse

namespace Store

/-- **The ids are apart in every store that can be reached from the empty one exactly if every
allowed update keeps the id of each record that it succeeds on.** So it is with updates beside the
id: insertions, replacements, updates of many records, insertions by an update and failures halfway
put nothing at risk. -/
theorem reached_keyed_iff (Allowed : Object → Prop) :
    ((∀ s, Reached Allowed s → s.Keyed) ↔
      ∀ update, Allowed update → update.WellFormed → KeepsKey update) ∧
    ∀ update, WritesBesideKey update → KeepsKey update :=
  ⟨⟨fun hkeyed _ hallowed hupdate => keepsKey_of_keyed hkeyed hallowed hupdate,
      fun hkeeps _ hs => (hs.sound hkeeps).keyed⟩,
    fun _ hupdate => keepsKey_of_writesBesideKey hupdate⟩

/-- Two records, the first of which is given another id. -/
def rewritten (id : Json) : Store :=
  let rows : List Object := [[("_id", .ofInt64 1), ("n", .ofInt64 1)], [("_id", .ofInt64 2)]]
  ((Store.insert "rows" rows .empty).2.update "rows" [("n", .ofInt64 1)]
    [("$set", .object [("_id", id)])] ⟨false, false⟩).2

/-- An update can give a record the id of another one, and it can take the id away. -/
theorem rewritten_not_keyed :
    (Reached (fun _ => True) (rewritten (.ofInt64 2)) ∧ ¬ (rewritten (.ofInt64 2)).Keyed) ∧
      Reached (fun _ => True) (rewritten .null) ∧ ¬ (rewritten .null).Keyed := by
  have hreached : ∀ id : Json, id.WellFormed → Reached (fun _ => True) (rewritten id) := by
    intro id hid
    have hnumber : ∀ n, (Json.ofInt64 n).WellFormed := fun _ => trivial
    refine (Reached.empty.insert "rows" ?_).update "rows" ⟨false, false⟩ ?_ ?_ trivial
    · simp [Object.WellFormed, Json.wellFormed_object, hnumber, or_imp, forall_and]
    · simp [Object.WellFormed, Json.wellFormed_object, hnumber]
    · simpa [Object.WellFormed, Json.wellFormed_object] using hid
  refine ⟨⟨hreached _ trivial, fun hkeyed => ?_⟩, hreached _ trivial, fun hkeyed => ?_⟩
  · have hdocs : (rewritten (.ofInt64 2)).documents "rows" =
        [[("_id", .ofInt64 2), ("n", .ofInt64 1)], [("_id", .ofInt64 2)]] := by rfl
    have hapart := (hkeyed "rows").apart
    rw [hdocs] at hapart
    have := List.rel_of_pairwise_cons hapart List.mem_cons_self _ rfl _ rfl
    exact absurd this (by decide)
  · have hdocs : (rewritten .null).documents "rows" =
        [[("_id", .null), ("n", .ofInt64 1)], [("_id", .ofInt64 2)]] := by rfl
    have hkeyed := (hkeyed "rows").keyed
    rw [hdocs] at hkeyed
    exact absurd (hkeyed _ List.mem_cons_self) (by decide)

end Store

end DocumentMapper
