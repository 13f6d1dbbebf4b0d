import DocumentMapper.Proofs.ObjectPaths
import DocumentMapper.Proofs.PositionalSearch
import DocumentMapper.Proofs.RecordKeys
import DocumentMapper.Proofs.SameValues

/-!
# Records that an update inserts

An update that may insert starts, where nothing meets its filter, from the values that the filter
asks for. They are written one after the other along paths through objects, so a value that was
written stays where it is as long as no path is written or removed that overlaps its own.

So the record that is inserted meets the filter, and it goes on to do so under the same update: called
again and again, the update finds this one record and inserts no other.

## Main results

* `Object.carries_seedOf`: the seed has every value that the filter asks for;
* `Object.Carries.meets`, `Object.Carries.apply`: a record with these values meets the filter, and
  operators beside their paths keep them;
* `Object.Carries.positionalPath`: in such a record no positional segment is replaced;
* `Store.upsert_once`: an update that may insert does so once.
-/

namespace DocumentMapper

open Text

/-! ### Filters that ask for values -/

/-- A condition asks for a value: it is the value, or has it under `$eq` and nothing else. -/
inductive Json.AsksFor : Json → Json → Prop
  | literal {v : Json} (h : ∀ es, v = .object es → ∀ e ∈ es, beginsWith "$" e.1 = false) :
      AsksFor v v
  | equal (v : Json) : AsksFor (.single "$eq" v) v

namespace Json.AsksFor

variable {condition v : Json}

theorem demandedValue? (h : condition.AsksFor v) :
    DocumentMapper.demandedValue? condition = some v := by
  cases h with
  | equal =>
    have hdollar : beginsWith "$" "$eq" = true := rfl
    simp [DocumentMapper.demandedValue?, single, Entries.get?, hdollar]
  | literal h =>
    cases condition with
    | object es =>
      have hplain : es.any (fun e => beginsWith "$" e.1) = false :=
        List.any_eq_false.mpr fun e he => by simp [h es rfl e he]
      simp [DocumentMapper.demandedValue?, hplain]
    | _ => rfl

theorem conditionHolds (h : condition.AsksFor v) (values : List Json) (depth : Nat) :
    DocumentMapper.conditionHolds condition values depth = .ok (equalsAny values v) := by
  cases h with
  | equal => exact conditionHolds_single rfl values depth
  | literal h =>
    refine conditionHolds_of_data ?_ values depth
    rintro ⟨es, rfl, hoperators⟩
    cases es with
    | nil => cases hoperators
    | cons e rest =>
      have hplain := h _ rfl e List.mem_cons_self
      simp [isOperatorMap, hplain] at hoperators

/-- A condition that asks for an array has nothing to say about single items. -/
theorem itemMeetsWhole {items : List Json} (h : condition.AsksFor (.array items)) (item : Json) :
    DocumentMapper.itemMeetsWhole item condition = .ok (equalsAny [item] (.array items)) := by
  have hitem := h.conditionHolds [item] 0
  cases h with
  | equal => exact hitem
  | literal h => exact hitem

end Json.AsksFor

/-- A filter asks for values only, at paths of which none begins another one. If it asks for an id,
then not for null. -/
structure AsksForValues (filter : Object) : Prop where
  wellFormed : filter.WellFormed
  named : ∀ e ∈ filter, beginsWith "$" e.1 = false
  asks : ∀ e ∈ filter, ∃ v, e.2.AsksFor v
  apart : filter.Pairwise fun a b => ¬ Overlap (dottedSegments a.1) (dottedSegments b.1)
  keyed : ∀ e ∈ filter, e.1 = idKey → ¬ e.2.AsksFor .null

namespace Object

/-- A record has every value that a filter asks for at its path. -/
def Carries (doc filter : Object) : Prop :=
  ∀ e ∈ filter, ∀ v, e.2.AsksFor v → EntryAt v (dottedSegments e.1) doc

variable {doc filter : Object}

/-- **A record that has the values meets the filter.** -/
theorem Carries.meets (hfilter : AsksForValues filter) (hdoc : doc.Carries filter) :
    doc.meets filter = .ok true := by
  rw [meets_eq, entriesHold_eq_true_iff]
  intro e he
  obtain ⟨v, hv⟩ := hfilter.asks e he
  have hdollar := hfilter.named e he
  have hlookup : doc.lookup e.1 = [v] := by
    have hreach := Json.reach_of_getPath? (hdoc e he v hv).getPath? []
    rw [List.append_nil] at hreach
    exact hreach
  have hself : Finds v [v] := by
    have hwf := (Json.wellFormed_object.mp hfilter.wellFormed).2 e he
    exact .value List.mem_cons_self
      (.inl (wellFormed_demandedValue? hwf hv.demandedValue?).equal_self)
  rw [entryHolds_of_name (not_mem_connectives hdollar), hdollar, hlookup]
  simp only [Bool.false_eq_true, ↓reduceIte, hv.conditionHolds, equalsAny_iff.mpr hself]

/-! ### The seed -/

/-- The seed with the value that one more condition demands. -/
def withDemanded (seed : Object) (e : String × Json) : Object :=
  if beginsWith "$" e.1 then seed
  else
    match demandedValue? e.2 with
    | some v => seed.place e.1 v
    | none => seed

theorem seedOf_eq_foldl (filter : Object) : seedOf filter = filter.foldl withDemanded [] :=
  rfl

/-- A value that is asked for is written where its path can be created. -/
theorem written_withDemanded {seed : Object} {e : String × Json} {v : Json}
    (hnamed : beginsWith "$" e.1 = false) (hasks : e.2.AsksFor v)
    (hcreatable : Creatable (dottedSegments e.1) seed) :
    Written v (dottedSegments e.1) seed (seed.withDemanded e) := by
  obtain ⟨seed', hwritten⟩ := hcreatable.written v
  have hset : seed.setPath e.1 v = .ok seed' := setPath_eq_ok.mpr (hwritten.setSegments e.1)
  have hplace : seed.withDemanded e = seed' := by
    simp [withDemanded, hnamed, hasks.demandedValue?, place, hset]
  rwa [hplace]

/-- Where the paths of some conditions can be created, their values get there one after the other,
and what is beside these paths stays. -/
theorem entryAt_foldl_withDemanded {conditions seed : Object}
    (hnamed : ∀ e ∈ conditions, beginsWith "$" e.1 = false)
    (hasks : ∀ e ∈ conditions, ∃ v, e.2.AsksFor v)
    (hapart : conditions.Pairwise fun a b => ¬ Overlap (dottedSegments a.1) (dottedSegments b.1))
    (hcreatable : ∀ e ∈ conditions, Creatable (dottedSegments e.1) seed) :
    (conditions.foldl withDemanded seed).Carries conditions ∧
      ∀ v p, EntryAt v p seed → (∀ e ∈ conditions, ¬ Overlap p (dottedSegments e.1)) →
        EntryAt v p (conditions.foldl withDemanded seed) := by
  induction conditions generalizing seed with
  | nil => exact ⟨fun _ he => absurd he List.not_mem_nil, fun v p h _ => h⟩
  | cons first rest ih =>
    obtain ⟨hnamed, hnamed'⟩ := List.forall_mem_cons.mp hnamed
    obtain ⟨⟨w, hw⟩, hasks'⟩ := List.forall_mem_cons.mp hasks
    obtain ⟨hbeside, hapart'⟩ := List.pairwise_cons.mp hapart
    obtain ⟨hfirst, hcreatable'⟩ := List.forall_mem_cons.mp hcreatable
    have hwritten := written_withDemanded hnamed hw hfirst
    have hstill : ∀ e ∈ rest, Creatable (dottedSegments e.1) (seed.withDemanded first) :=
      fun e he => (hcreatable' e he).of_written (fun h => hbeside e he h.symm) hwritten
    obtain ⟨hcarries, hkeeps⟩ := ih hnamed' hasks' hapart' hstill
    refine ⟨List.forall_mem_cons.mpr ⟨fun v hv => ?_, hcarries⟩, fun v p hp hout => ?_⟩
    · have hsame : w = v := Option.some.inj (hw.demandedValue?.symm.trans hv.demandedValue?)
      subst hsame
      exact hkeeps w _ hwritten.entryAt hbeside
    · obtain ⟨hout, hout'⟩ := List.forall_mem_cons.mp hout
      exact hkeeps v p (hp.setSegments hout (hwritten.setSegments first.1)) hout'

/-- **The seed has every value that the filter asks for.** -/
theorem carries_seedOf (hfilter : AsksForValues filter) : (seedOf filter).Carries filter := by
  rw [seedOf_eq_foldl]
  exact (entryAt_foldl_withDemanded hfilter.named hfilter.asks hfilter.apart
    fun e _ => creatable_nil (dottedSegments_ne_nil e.1)).1

end Object

/-! ### Positional segments -/

/-- A position is found only where there is an item, and a condition on it: below the array, or one
on the array that the item meets. -/
theorem exists_of_firstMeeting {below : List (String × Json)} {whole : Option Json} {k n : Nat}
    {items : List Json} (h : firstMeeting below whole k items = .ok n) :
    ∃ item ∈ items, below ≠ [] ∨
      ∃ condition, whole = some condition ∧ itemMeetsWhole item condition = .ok true := by
  induction items generalizing k with
  | nil => cases h
  | cons item rest ih =>
    have hlater : (∃ k, firstMeeting below whole k rest = .ok n) → ∃ found ∈ item :: rest,
        below ≠ [] ∨ ∃ condition, whole = some condition ∧
          itemMeetsWhole found condition = .ok true := by
      rintro ⟨k, hk⟩
      obtain ⟨found, hfound, hwhy⟩ := ih hk
      exact ⟨found, List.mem_cons_of_mem item hfound, hwhy⟩
    rw [firstMeeting] at h
    obtain ⟨metBelow, -, h⟩ := bind_eq_ok.mp h
    cases below with
    | cons e more => exact ⟨item, List.mem_cons_self, .inl (List.cons_ne_nil e more)⟩
    | nil =>
      cases whole with
      | none => exact hlater ⟨k + 1, by simpa [bind, Except.bind, pure, Except.pure] using h⟩
      | some condition =>
        cases metBelow with
        | false => exact hlater ⟨k + 1, by simpa [bind, Except.bind, pure, Except.pure] using h⟩
        | true =>
          simp only [↓reduceIte] at h
          obtain ⟨metWhole, hwhole, h⟩ := bind_eq_ok.mp h
          cases metWhole with
          | false => exact hlater ⟨k + 1, by simpa using h⟩
          | true => exact ⟨item, List.mem_cons_self, .inr ⟨condition, rfl, hwhole⟩⟩

/-- What is among the contents of an array is smaller than the array. -/
theorem Content.sizeOf_lt_array {content : Content} {items : List Content} (h : content ∈ items) :
    sizeOf content < sizeOf (Content.array items) := by
  have := List.sizeOf_lt_of_mem h
  simp only [Content.array.sizeOf_spec]
  omega

/-- An item of an array is neither the same as the array nor has it among its items. -/
theorem not_finds_array {items : List Json} {item : Json} (harray : (Json.array items).WellFormed)
    (hitem : item ∈ items) : ¬ Finds (.array items) [item] := by
  have hsmaller : ∀ {a : Json} {as : List Json}, a ∈ as →
      sizeOf a.content < sizeOf (Json.array as).content := by
    intro a as ha
    simp only [Json.content, contentItems_eq_map]
    exact Content.sizeOf_lt_array (List.mem_map_of_mem ha)
  have hsize : ∀ {a : Json}, a.WellFormed → Same a (.array items) →
      sizeOf a.content = sizeOf (Json.array items).content := by
    intro a ha hsame
    rcases hsame with hequal | hnumber
    · rw [(Json.equal_iff_content a _ ha harray).mp hequal]
    · cases hnumber.isNumber.2
  have hwf := Json.wellFormed_array.mp harray item hitem
  have hitemSize := hsmaller hitem
  intro h
  cases h with
  | value hmem hsame =>
    obtain rfl := List.mem_singleton.mp hmem
    have := hsize hwf hsame
    omega
  | @item _ others inner hmem hinner hsame =>
    obtain rfl := List.mem_singleton.mp hmem
    have := hsize (Json.wellFormed_array.mp hwf inner hinner) hsame
    have := hsmaller hinner
    omega

/-- **In a record that has the values of a filter a positional segment is never replaced.** Its array
would be the value of a condition, which no item of it meets, and a value below it stands in an
object. -/
theorem Object.Carries.positionalPath {doc filter : Object} {rawPath path : String}
    (hfilter : AsksForValues filter) (hdoc : doc.Carries filter)
    (h : positionalPath doc filter rawPath = .ok path) : path = rawPath := by
  simp only [DocumentMapper.positionalPath] at h
  split at h
  · cases h
    rfl
  · obtain ⟨index, hindex, -⟩ := bind_eq_ok.mp h
    generalize dotted ((dottedSegments rawPath).takeWhile (· ≠ "$")) = arrayPath at hindex
    exfalso
    obtain ⟨item, hitem, hwhy⟩ := exists_of_firstMeeting hindex
    obtain ⟨items, harray, hitem⟩ : ∃ items, doc.getPath? arrayPath = some (.array items) ∧
        item ∈ items := by
      cases hfound : doc.getPath? arrayPath with
      | none => simp [hfound] at hitem
      | some v =>
        cases v with
        | array items => exact ⟨items, rfl, by simpa [hfound, Json.asArray?] using hitem⟩
        | _ => simp [hfound, Json.asArray?] at hitem
    rcases hwhy with hbelow | ⟨condition, hwhole, hmeets⟩
    · obtain ⟨⟨rest, condition⟩, hmem⟩ := List.exists_mem_of_ne_nil _ hbelow
      have hcondition := mem_conditionsBelow.mp hmem
      obtain ⟨v, hv⟩ := hfilter.asks _ hcondition
      obtain ⟨fs, hobject⟩ := (hdoc _ hcondition v hv).above (dottedSegments_append arrayPath rest)
        (dottedSegments_ne_nil rest)
      cases hobject.symm.trans harray
    · have hcondition := Entries.mem_of_get? hwhole
      obtain ⟨v, hv⟩ := hfilter.asks _ hcondition
      have hvalue : v = .array items :=
        Option.some.inj ((hdoc _ hcondition v hv).getPath?.symm.trans harray)
      subst hvalue
      have hwf := (Json.wellFormed_object.mp hfilter.wellFormed).2 _ hcondition
      rw [hv.itemMeetsWhole, Except.ok.injEq, equalsAny_iff] at hmeets
      exact not_finds_array (wellFormed_demandedValue? hwf hv.demandedValue?) hitem hmeets

/-! ### Operators beside the filter -/

/-- A path overlaps no path of a filter. -/
def Beside (filter : Object) (path : String) : Prop :=
  ∀ e ∈ filter, ¬ Overlap (dottedSegments e.1) (dottedSegments path)

instance (filter : Object) (path : String) : Decidable (Beside filter path) :=
  inferInstanceAs (Decidable (∀ e ∈ filter, ¬ Overlap (dottedSegments e.1) (dottedSegments path)))

/-- The values that a filter asks for are kept beside its paths. -/
theorem kept_carries (filter : Object) :
    Kept (fun doc => doc.Carries filter) (fun _ => True) (Beside filter) where
  write hdoc hpath _ hset e he v hv :=
    (hdoc e he v hv).setSegments (hpath e he) (Object.setPath_eq_ok.mp hset)
  remove hdoc hpath e he v hv :=
    (hdoc e he v hv).withoutPath (hpath e he) (Object.object_removePath _ _).symm
  part _ _ := trivial
  array := by simp
  entry _ _ _ := trivial
  word _ := trivial
  float _ := trivial

/-- An update has operators, and the paths that they write or remove overlap no path of a filter. -/
structure OperatesBeside (filter update : Object) : Prop where
  operators : (update.any fun e => beginsWith "$" e.1) = true
  beside : ∀ op entries, (op, Json.object entries) ∈ update → ∀ e ∈ entries, Beside filter e.1 ∧
    (op = "$rename" → ∀ target, e.2 = .string target → Beside filter target)

namespace Object.Carries

variable {doc filter update : Object}

/-- **Operators beside the filter keep the values that it asks for**, also where one of them fails. -/
theorem apply (hfilter : AsksForValues filter) (hupdate : OperatesBeside filter update)
    (hdoc : doc.Carries filter) (inserting : Bool) :
    (doc.apply filter update inserting).doc.Carries filter := by
  rw [Object.apply, if_pos hupdate.operators]
  refine (kept_carries filter).applyOperators (fun _ _ => trivial) ?_ hdoc
  intro op entries hop e he path hpath _
  rw [hdoc.positionalPath hfilter hpath]
  exact hupdate.beside op entries hop e he

/-- So does putting the id in front, since a value that is asked for as the id, or in it, is the id
or in it. -/
theorem withIdFirst (hfilter : AsksForValues filter) (hdoc : doc.Carries filter) {id : Json}
    (hid : ∀ present, doc.id? = some present → present = id) :
    (doc.withIdFirst id).Carries filter := by
  have hget : ∀ key, key ≠ idKey → (doc.withIdFirst id).get? key = doc.get? key := by
    intro key hkey
    rw [Object.withIdFirst, Entries.get?_cons, if_neg hkey.symm, Entries.get?_filter_ne,
      if_neg hkey.symm]
  have hself : ∀ v, doc.get? idKey = some v → v.isNull = false →
      (doc.withIdFirst id).get? idKey = doc.get? idKey := by
    intro v hv hnull
    rw [hv, hid v (Object.id?_eq_some.mpr ⟨hv, hnull⟩), Object.withIdFirst, Entries.get?_cons,
      if_pos rfl]
  intro e he v hv
  have hentry := hdoc e he v hv
  generalize hpath : dottedSegments e.1 = path at hentry
  cases hentry with
  | @entry s _ h =>
    refine .entry (Eq.trans ?_ h)
    by_cases hkey : s = idKey
    · subst hkey
      have hname : e.1 = idKey := dottedSegments_injective (hpath.trans (by decide))
      refine hself v h ?_
      cases v with
      | null => exact absurd hv (hfilter.keyed e he hname)
      | _ => rfl
    · exact hget s hkey
  | @deeper s t rest _ fs h hbelow =>
    refine .deeper (Eq.trans ?_ h) hbelow
    by_cases hkey : s = idKey
    · subst hkey
      exact hself _ h rfl
    · exact hget s hkey

end Object.Carries

/-! ### Going through the records -/

section Sweeping

variable {filter update : Object} {multi : Bool}

/-- Records that do not meet the filter are passed over. -/
theorem changeMeeting_append {front : List Object} (hfront : NoneMeeting filter front)
    (docs : List Object) (tally : Tally) :
    changeMeeting filter update multi (front ++ docs) tally =
      ((changeMeeting filter update multi docs tally).1,
        front ++ (changeMeeting filter update multi docs tally).2) := by
  induction front with
  | nil => rfl
  | cons doc front ih =>
    obtain ⟨hdoc, hfront⟩ := List.forall_mem_cons.mp hfront
    simp [changeMeeting, hdoc, ih hfront]

/-- An update that ends well and has found no further record has found none at all. -/
theorem noneMeeting_of_matched {docs docs' : List Object} {tally tally' : Tally}
    (h : changeMeeting filter update multi docs tally = (.ok tally', docs')) :
    tally.matched ≤ tally'.matched ∧
      (tally'.matched = tally.matched → NoneMeeting filter docs ∧ docs' = docs) := by
  induction docs generalizing tally docs' with
  | nil =>
    obtain ⟨htally, rfl⟩ := Prod.mk.inj h
    obtain rfl := Except.ok.inj htally
    exact ⟨Nat.le_refl _, fun _ => ⟨fun _ hdoc => absurd hdoc List.not_mem_nil, rfl⟩⟩
  | cons doc rest ih =>
    rw [changeMeeting] at h
    split at h
    · cases (Prod.mk.inj h).1
    · rename_i hmeets
      rcases hrest : changeMeeting filter update multi rest tally with ⟨outcome, rest'⟩
      rw [hrest] at h
      obtain ⟨rfl, rfl⟩ := Prod.mk.inj h
      obtain ⟨hle, hnone⟩ := ih hrest
      refine ⟨hle, fun hsame => ?_⟩
      obtain ⟨hnone, rfl⟩ := hnone hsame
      exact ⟨List.forall_mem_cons.mpr ⟨hmeets, hnone⟩, rfl⟩
    · dsimp only at h
      split at h
      · cases (Prod.mk.inj h).1
      · rename_i changed _
        have hmore : tally.matched < tally'.matched := by
          split at h
          · generalize hnext : (⟨tally.matched + 1, tally.modified + if changed then 1 else 0⟩ :
              Tally) = next at h
            rcases hrest : changeMeeting filter update multi rest next with ⟨outcome, rest'⟩
            rw [hrest] at h
            obtain ⟨rfl, -⟩ := Prod.mk.inj h
            have hle := (ih hrest).1
            rw [← hnext] at hle
            exact hle
          · obtain ⟨htally, -⟩ := Prod.mk.inj h
            obtain rfl := Except.ok.inj htally
            exact Nat.lt_succ_self _
        exact ⟨hmore.le, fun hsame => absurd hsame hmore.ne'⟩

/-- A record that meets the filter is counted, unless it cannot be changed. -/
theorem changeMeeting_singleton {doc : Object} (hmeets : doc.meets filter = .ok true)
    (update : Object) (multi : Bool) (tally : Tally) :
    ∃ doc', ChangesTo filter update doc doc' ∧
      (changeMeeting filter update multi [doc] tally).2 = [doc'] ∧
      ∀ tally', (changeMeeting filter update multi [doc] tally).1 = .ok tally' →
        tally'.matched = tally.matched + 1 := by
  have hchanges := changesTo_changeMeeting filter update multi [doc] tally
  have hcount : ∀ tally', (changeMeeting filter update multi [doc] tally).1 = .ok tally' →
      tally'.matched = tally.matched + 1 := by
    intro tally' h
    simp only [changeMeeting, hmeets] at h
    split at h
    · cases h
    · split at h
      · obtain rfl := Except.ok.inj h
        rfl
      · obtain rfl := Except.ok.inj h
        rfl
  cases hafter : (changeMeeting filter update multi [doc] tally).2 with
  | nil =>
    rw [hafter] at hchanges
    cases hchanges
  | cons doc' more =>
    rw [hafter] at hchanges
    obtain ⟨hchange, hmore⟩ := List.forall₂_cons.mp hchanges
    obtain rfl := List.forall₂_nil_left_iff.mp hmore
    exact ⟨doc', hchange, rfl, hcount⟩

end Sweeping

/-! ### Inserting once -/

namespace Store

/-- A store is another one with one more record, at the end of a collection. -/
def OneMore (s : Store) (collection : String) (doc : Object) (t : Store) : Prop :=
  t.documents collection = s.documents collection ++ [doc] ∧
    ∀ name, name ≠ collection → t.documents name = s.documents name

variable {s t u : Store} {collection : String} {filter update : Object} {multi : Bool}

/-- An insertion by an update that ends well adds the changed seed, with its id in front. -/
theorem upsert_eq_ok {result : UpdateResult}
    (h : s.upsert collection filter update = (.ok result, t)) :
    ∃ id : Json, result = ⟨0, 0, some id⟩ ∧ id.isNull = false ∧
      (∀ present, ((seedOf filter).apply filter update true).doc.id? = some present →
        present = id) ∧
      s.OneMore collection (((seedOf filter).apply filter update true).doc.withIdFirst id) t := by
  simp only [Store.upsert] at h
  generalize (seedOf filter).apply filter update true = applied at h ⊢
  have happended : ∀ (s' : Store) {id : Json},
      (∀ name, s'.documents name = s.documents name) →
      s'.appendNew collection id (applied.doc.withIdFirst id) = .ok t →
      s.OneMore collection (applied.doc.withIdFirst id) t := by
    intro s' id hsame happend
    obtain ⟨-, rfl⟩ := appendNew_eq_ok.mp happend
    refine ⟨?_, fun name hname => ?_⟩
    · rw [append, documents_setDocuments_self, hsame]
    · rw [append, documents_setDocuments_of_ne _ _ hname.symm, hsame]
  cases hfailure : applied.failure with
  | some cause => simp [hfailure] at h
  | none =>
    cases hid : applied.doc.id? with
    | some id =>
      simp only [hfailure, hid] at h
      split at h
      · rename_i stored happend
        obtain ⟨hresult, rfl⟩ := Prod.mk.inj h
        obtain rfl := Except.ok.inj hresult
        refine ⟨id, rfl, (Object.id?_eq_some.mp hid).2, fun present hpresent => ?_,
          happended s (fun _ => rfl) happend⟩
        exact (Option.some.inj hpresent).symm
      · cases (Prod.mk.inj h).1
    | none =>
      simp only [hfailure, hid, issue] at h
      split at h
      · rename_i stored happend
        obtain ⟨hresult, rfl⟩ := Prod.mk.inj h
        obtain rfl := Except.ok.inj hresult
        refine ⟨madeId s.issued, rfl, rfl, fun present hpresent => ?_,
          happended s.issue.2 (fun _ => rfl) happend⟩
        cases hpresent
      · cases (Prod.mk.inj h).1

/-- An update that may insert, ends well and has found no record has inserted one. -/
theorem update_of_unmatched {result : UpdateResult}
    (h : s.update collection filter update ⟨true, multi⟩ = (.ok result, t))
    (hunmatched : result.matched = 0) :
    NoneMeeting filter (s.documents collection) ∧ ∃ id : Json, result = ⟨0, 0, some id⟩ ∧
      id.isNull = false ∧
      (∀ present, ((seedOf filter).apply filter update true).doc.id? = some present →
        present = id) ∧
      s.OneMore collection (((seedOf filter).apply filter update true).doc.withIdFirst id) t := by
  unfold Store.update at h
  rcases hchange : changeMeeting filter update multi (s.documents collection) ⟨0, 0⟩ with
    ⟨outcome, docs⟩
  rw [hchange] at h
  cases outcome with
  | error cause => cases (Prod.mk.inj h).1
  | ok tally =>
    dsimp only at h
    split at h
    · rename_i hzero
      simp only [Bool.and_true, decide_eq_true_eq] at hzero
      obtain ⟨hnone, rfl⟩ := (noneMeeting_of_matched hchange).2 hzero
      obtain ⟨id, hresult, hnull, hpresent, hmore, helse⟩ := upsert_eq_ok h
      refine ⟨hnone, id, hresult, hnull, hpresent, ?_, fun name hname => ?_⟩
      · rw [hmore, documents_setDocuments_self]
      · rw [helse name hname, documents_setDocuments_of_ne s _ hname.symm]
    · rename_i hsome
      obtain ⟨hresult, -⟩ := Prod.mk.inj h
      obtain rfl := Except.ok.inj hresult
      simp [show tally.matched = 0 from hunmatched] at hsome

/-- **Where one record behind all others has the values that the filter asks for, and none of the
others meets it, the update finds this record and inserts nothing**, whether it ends well or not. The
record goes on to have the values. -/
theorem update_oneMore {doc : Object} {outcome : Except StoreError UpdateResult}
    (hfilter : AsksForValues filter) (hupdate : OperatesBeside filter update)
    (hnone : NoneMeeting filter (s.documents collection)) (hdoc : doc.Carries filter)
    (hmore : s.OneMore collection doc t)
    (h : t.update collection filter update ⟨true, multi⟩ = (outcome, u)) :
    (∃ doc', doc'.Carries filter ∧ s.OneMore collection doc' u) ∧
      ∀ result, outcome = .ok result → result.matched = 1 ∧ result.upserted = none := by
  obtain ⟨hdocs, helse⟩ := hmore
  obtain ⟨doc', hchange, hafter, hcount⟩ :=
    changeMeeting_singleton (hdoc.meets hfilter) update multi ⟨0, 0⟩
  have hcarries : doc'.Carries filter := by
    cases hchange with
    | same => exact hdoc
    | applied _ _ => exact hdoc.apply hfilter hupdate false
  have hset : s.OneMore collection doc'
      (t.setDocuments collection (s.documents collection ++ [doc'])) := by
    refine ⟨documents_setDocuments_self t collection _, fun name hname => ?_⟩
    rw [documents_setDocuments_of_ne t _ hname.symm, helse name hname]
  unfold Store.update at h
  rw [hdocs, changeMeeting_append hnone, hafter] at h
  cases hswept : (changeMeeting filter update multi [doc] ⟨0, 0⟩).1 with
  | error cause =>
    rw [hswept] at h
    obtain ⟨rfl, rfl⟩ := Prod.mk.inj h
    refine ⟨⟨doc', hcarries, hset⟩, fun result hresult => ?_⟩
    cases hresult
  | ok tally =>
    have hone : tally.matched = 1 := hcount tally hswept
    rw [hswept] at h
    simp only [hone, Nat.one_ne_zero, decide_false, Bool.false_and, Bool.false_eq_true,
      ↓reduceIte] at h
    obtain ⟨rfl, rfl⟩ := Prod.mk.inj h
    refine ⟨⟨doc', hcarries, hset⟩, fun result hresult => ?_⟩
    obtain rfl := Except.ok.inj hresult
    exact ⟨rfl, rfl⟩

/-- A store after an update that may insert was called some times. -/
def updatedTimes (s : Store) (collection : String) (filter update : Object) (multi : Bool) :
    Nat → Store
  | 0 => s
  | n + 1 =>
    ((s.updatedTimes collection filter update multi n).update collection filter update
      ⟨true, multi⟩).2

/-- However often the update is called, there is one more record than at first. -/
theorem oneMore_updatedTimes {doc : Object} (hfilter : AsksForValues filter)
    (hupdate : OperatesBeside filter update)
    (hnone : NoneMeeting filter (s.documents collection)) (hdoc : doc.Carries filter)
    (hmore : s.OneMore collection doc t) (multi : Bool) (n : Nat) :
    ∃ doc', doc'.Carries filter ∧
      s.OneMore collection doc' (t.updatedTimes collection filter update multi n) := by
  induction n with
  | zero => exact ⟨doc, hdoc, hmore⟩
  | succ n ih =>
    obtain ⟨doc', hdoc', hmore'⟩ := ih
    exact (update_oneMore hfilter hupdate hnone hdoc' hmore' rfl).1

/-- **An update that may insert does so once.** Where no record meets a filter that asks for values,
and the paths of the operators overlap none of its paths, the record that the update inserts meets the
filter, and every other record is as it was. However often the update is called again, it finds this
one record and inserts nothing, whether it ends well or not. -/
theorem upsert_once {result : UpdateResult} (hfilter : AsksForValues filter)
    (hupdate : OperatesBeside filter update)
    (h : s.update collection filter update ⟨true, multi⟩ = (.ok result, t))
    (hunmatched : result.matched = 0) :
    ∃ doc id, result = ⟨0, 0, some id⟩ ∧ doc.id? = some id ∧ doc.meets filter = .ok true ∧
      s.OneMore collection doc t ∧
      ∀ n, ∃ doc', doc'.meets filter = .ok true ∧
        s.OneMore collection doc' (t.updatedTimes collection filter update multi n) ∧
        ∀ result' u, (t.updatedTimes collection filter update multi n).update collection filter
            update ⟨true, multi⟩ = (.ok result', u) →
          result'.matched = 1 ∧ result'.upserted = none := by
  obtain ⟨hnone, id, hresult, hnull, hpresent, hmore⟩ := update_of_unmatched h hunmatched
  have hchanged := (Object.carries_seedOf hfilter).apply hfilter hupdate true
  generalize (seedOf filter).apply filter update true = applied at hpresent hmore hchanged
  have hdoc := hchanged.withIdFirst hfilter hpresent
  refine ⟨_, id, hresult, Object.id?_withIdFirst applied.doc hnull, hdoc.meets hfilter, hmore,
    fun n => ?_⟩
  obtain ⟨doc', hdoc', hmore'⟩ :=
    oneMore_updatedTimes hfilter hupdate hnone hdoc hmore multi n
  exact ⟨doc', hdoc'.meets hfilter, hmore', fun result' u hagain =>
    (update_oneMore hfilter hupdate hnone hdoc' hmore' hagain).2 result' rfl⟩

/-- A value in an object and an array. -/
def placeFilter : Object :=
  [("at.x", .ofInt64 1), ("k", .single "$eq" (.array [.ofInt64 2]))]

/-- A value beside the first one, and a count. -/
def placeUpdate : Object :=
  [("$set", .object [("at.y", .ofInt64 2)]), ("$inc", .object [("n", .ofInt64 1)])]

/-- One record that has another value. -/
def placeStore : Store :=
  (Store.insert "places" [[("_id", .ofInt64 1), ("k", .array [])]] .empty).2

/-- The first call inserts a record under a new id, and each further call counts it up. -/
theorem upsert_once_places :
    AsksForValues placeFilter ∧ OperatesBeside placeFilter placeUpdate ∧
    ∃ t, placeStore.update "places" placeFilter placeUpdate ⟨true, true⟩ =
        (.ok ⟨0, 0, some (.string "<id-1>")⟩, t) ∧
      ∃ doc id, some (.string "<id-1>") = some id ∧ doc.id? = some id ∧
        doc.meets placeFilter = .ok true ∧ placeStore.OneMore "places" doc t ∧
        ∀ n, ∃ doc', doc'.meets placeFilter = .ok true ∧ placeStore.OneMore "places" doc'
          (t.updatedTimes "places" placeFilter placeUpdate true n) := by
  have hfilter : AsksForValues placeFilter := by
    have hnamed : ∀ e ∈ placeFilter, e.1 ≠ idKey := by decide
    refine ⟨?_, by decide, ?_, by decide, fun e he hid => absurd hid (hnamed e he)⟩
    · simp [placeFilter, Object.WellFormed, Json.single, Json.ofInt64, Json.WellFormed]
    · intro e he
      rcases List.mem_cons.mp he with rfl | he
      · exact ⟨_, .literal fun _ hobject => by cases hobject⟩
      · obtain rfl := List.mem_singleton.mp he
        exact ⟨_, .equal _⟩
  have hupdate : OperatesBeside placeFilter placeUpdate := by
    refine ⟨by decide, ?_⟩
    intro op entries hop e he
    have hops : op = "$set" ∧ entries = [("at.y", Json.ofInt64 2)] ∨
        op = "$inc" ∧ entries = [("n", Json.ofInt64 1)] := by
      simpa [placeUpdate] using hop
    rcases hops with ⟨rfl, rfl⟩ | ⟨rfl, rfl⟩
    · obtain rfl := List.mem_singleton.mp he
      exact ⟨by decide, by simp⟩
    · obtain rfl := List.mem_singleton.mp he
      exact ⟨by decide, by simp⟩
  have hfirst : placeStore.update "places" placeFilter placeUpdate ⟨true, true⟩ =
      (.ok ⟨0, 0, some (.string "<id-1>")⟩,
        (placeStore.update "places" placeFilter placeUpdate ⟨true, true⟩).2) := rfl
  refine ⟨hfilter, hupdate, _, hfirst, ?_⟩
  obtain ⟨doc, id, hresult, hid, hmeets, hmore, hagain⟩ := upsert_once hfilter hupdate hfirst rfl
  refine ⟨doc, id, congrArg UpdateResult.upserted hresult, hid, hmeets, hmore, fun n => ?_⟩
  obtain ⟨doc', hmeets', hmore', -⟩ := hagain n
  exact ⟨doc', hmeets', hmore'⟩

end Store

end DocumentMapper
