import DocumentMapper.Mapper.References
import DocumentMapper.Proofs.Runs
import DocumentMapper.Proofs.SortedEntries

/-!
# One round of a resolution

A round collects what references lead to, collection by collection, and looks it up. References that
cannot be located and those to documents that were asked for before count for nothing. The records
that are found are read as the type that the first reference into their collection expects, or as a
subtype of it that they name.

## Main results

* `Resolution.gather_eq`: what is wanted is collected reference by reference;
* `Resolution.wants_foldl`, `Resolution.declared_foldl`: which keys are wanted, and as what;
* `Resolution.lookup_fetchAll`: what is asked for, what is found and under which keys.
-/

namespace DocumentMapper

/-! ### Lists of pairs -/

section Pairs

variable {α β : Type} [BEq α] [LawfulBEq α]

theorem lookup_filter_of_ne {pairs : List (α × β)} {key other : α} (h : other ≠ key) :
    (pairs.filter fun e => e.1 != key).lookup other = pairs.lookup other := by
  induction pairs with
  | nil => rfl
  | cons e rest ih =>
    obtain ⟨k, v⟩ := e
    by_cases hk : k = key
    · subst hk
      simp [List.lookup_cons, ih, beq_eq_false_iff_ne.mpr h]
    · simp [List.lookup_cons, hk, ih]

theorem lookup_filter_self (pairs : List (α × β)) (key : α) :
    (pairs.filter fun e => e.1 != key).lookup key = none := by
  induction pairs with
  | nil => rfl
  | cons e rest ih =>
    obtain ⟨k, v⟩ := e
    by_cases hk : k = key
    · simp [hk, ih]
    · simp [List.lookup_cons, hk, ih, beq_eq_false_iff_ne.mpr (Ne.symm hk)]

end Pairs

/-! ### Targets of references -/

namespace Catalog

/-- The key of the document that a reference leads to and the type that it expects there, if it can
be located. -/
def target? (c : Catalog) (r : Reference) : Option (ObjectKey × DocumentType) :=
  match c.locate r with
  | .ok (some (collection, t)) => some ((collection, r.id.text), t)
  | _ => none

/-- The key of the document that a reference leads to, if it can be located. -/
def locatedKey? (c : Catalog) (r : Reference) : Option ObjectKey :=
  (c.target? r).map Prod.fst

/-- A reference that can be located has the key of its target. -/
theorem objectKey?_of_locatedKey? {c : Catalog} {r : Reference} {key : ObjectKey}
    (h : c.locatedKey? r = some key) : c.objectKey? r = some key := by
  obtain ⟨⟨target, declared⟩, htarget, rfl⟩ := Option.map_eq_some_iff.mp h
  unfold target? at htarget
  split at htarget
  · rename_i collection t hlocate
    cases htarget
    unfold locate at hlocate
    unfold objectKey?
    split at hlocate
    · rename_i name hname
      obtain ⟨t, hget, hlocate⟩ := bind_eq_ok.mp hlocate
      have hregistered : c.get? name = some t := by
        unfold Catalog.get at hget
        split at hget
        · cases hget
          assumption
        · cases hget
      obtain ⟨place, hplace, heq⟩ := Option.map_eq_some_iff.mp (Except.ok.inj hlocate)
      cases heq
      simp [hregistered, hplace]
    · rename_i name className hname
      obtain ⟨t, -, heq⟩ := Option.map_eq_some_iff.mp (Except.ok.inj hlocate)
      cases heq
      simp
  · cases htarget

end Catalog

namespace Resolution

/-- The entries of what is wanted with the target of one more reference. -/
def want (c : Catalog) (state : Resolution) (wanted : Entries Wanted) (r : Reference) :
    Entries Wanted :=
  match c.target? r with
  | some (key, declared) =>
    if key ∈ state.requested then wanted
    else wanted.insertSorted key.1 (((wanted.get? key.1).getD ⟨declared, []⟩).add r.id)
  | none => wanted

/-- **What is wanted is collected reference by reference**, unless one has a type that is not
registered. -/
theorem gather_eq (c : Catalog) (state : Resolution) (references : List Reference)
    (wanted : Entries Wanted) :
    state.gather c references wanted =
      (references.mapM c.locate).map fun _ => references.foldl (state.want c) wanted := by
  induction references generalizing wanted with
  | nil => rfl
  | cons r rest ih =>
    rw [gather, List.mapM_cons, List.foldl_cons]
    cases hlocate : c.locate r with
    | error cause => rfl
    | ok target =>
      have hstep : ∀ wanted', (state.gather c rest wanted' =
          (Except.ok target >>= fun t => rest.mapM c.locate >>= fun ts => pure (t :: ts)).map
            fun _ => rest.foldl (state.want c) wanted') := by
        intro wanted'
        rw [ih]
        cases rest.mapM c.locate <;> rfl
      rcases target with _ | ⟨collection, declared⟩
      · have hwant : state.want c wanted r = wanted := by simp [want, Catalog.target?, hlocate]
        rw [hwant]
        exact hstep wanted
      · by_cases hrequested : (collection, r.id.text) ∈ state.requested
        · have hwant : state.want c wanted r = wanted := by
            simp [want, Catalog.target?, hlocate, hrequested]
          rw [hwant, ← hstep]
          exact if_pos (List.contains_iff_mem.mpr hrequested)
        · have hwant : state.want c wanted r = wanted.insertSorted collection
              (((wanted.get? collection).getD ⟨declared, []⟩).add r.id) := by
            simp [want, Catalog.target?, hlocate, hrequested]
          rw [hwant, ← hstep]
          exact if_neg (mt List.contains_iff_mem.mp hrequested)

/-- A key is among what is wanted. -/
def Wants (wanted : Entries Wanted) (key : ObjectKey) : Prop :=
  ∃ w, wanted.get? key.1 = some w ∧ ∃ id ∈ w.ids, id.text = key.2

theorem not_wants_nil (key : ObjectKey) : ¬ Wants [] key := by
  rintro ⟨w, hw, -⟩
  cases hw

/-- Adding an id adds its text. -/
theorem text_mem_add {w : Wanted} {id : Json} {text : String} :
    (∃ present ∈ (w.add id).ids, present.text = text) ↔
      (∃ present ∈ w.ids, present.text = text) ∨ id.text = text := by
  unfold Wanted.add
  split
  · rename_i hpresent
    obtain ⟨present, hmem, hsame⟩ := List.any_eq_true.mp hpresent
    refine ⟨.inl, fun h => h.elim (fun hin => hin) fun heq => ⟨present, hmem, ?_⟩⟩
    rw [← heq]
    exact eq_of_beq hsame
  · simp [or_and_right, exists_or]

@[simp] theorem declared_add (w : Wanted) (id : Json) : (w.add id).declared = w.declared := by
  unfold Wanted.add
  split <;> rfl

section

variable {c : Catalog} {state : Resolution} {wanted : Entries Wanted} {r : Reference}
  {references : List Reference} {key : ObjectKey}

/-- One more reference adds its target, unless it was asked for before. -/
theorem wants_want :
    Wants (state.want c wanted r) key ↔
      Wants wanted key ∨ key ∉ state.requested ∧ c.locatedKey? r = some key := by
  unfold want Catalog.locatedKey?
  cases htarget : c.target? r with
  | none => simp
  | some target =>
    obtain ⟨at', declared⟩ := target
    have htext : at'.2 = r.id.text := by
      unfold Catalog.target? at htarget
      split at htarget
      · cases htarget
        rfl
      · cases htarget
    simp only [Option.map_some, Option.some.injEq]
    split
    · rename_i hrequested
      exact ⟨.inl, fun h => h.elim id fun ⟨hnew, heq⟩ => absurd (heq ▸ hrequested) hnew⟩
    · rename_i hnew
      unfold Wants
      by_cases hcollection : at'.1 = key.1
      · have hkey : at' = key ↔ r.id.text = key.2 := by
          rw [← htext]
          exact ⟨fun h => h ▸ rfl, fun h => Prod.ext hcollection h⟩
        have hsame : key ∉ state.requested ∧ at' = key ↔ at' = key :=
          ⟨And.right, fun h => ⟨h ▸ hnew, h⟩⟩
        rw [hsame, hkey, Entries.get?_insertSorted, if_pos hcollection]
        simp only [Option.some.injEq, exists_eq_left', text_mem_add, hcollection]
        cases wanted.get? key.1 with
        | none => simp
        | some w => simp
      · have hne : at' ≠ key := fun h => hcollection (h ▸ rfl)
        rw [Entries.get?_insertSorted, if_neg hcollection]
        simp [hne]

/-- **The targets of references are wanted**, unless they were asked for before. -/
theorem wants_foldl :
    Wants (references.foldl (state.want c) wanted) key ↔
      Wants wanted key ∨
        key ∉ state.requested ∧ ∃ r ∈ references, c.locatedKey? r = some key := by
  induction references generalizing wanted with
  | nil => simp
  | cons r rest ih =>
    rw [List.foldl_cons, ih, wants_want]
    simp only [List.mem_cons, exists_eq_or_imp, and_or_left, or_assoc]

/-- What is wanted is sorted by collection. -/
theorem sorted_foldl (h : wanted.Sorted) : (references.foldl (state.want c) wanted).Sorted := by
  induction references generalizing wanted with
  | nil => exact h
  | cons r rest ih =>
    refine ih ?_
    unfold want
    split
    · split
      · exact h
      · exact h.insertSorted _ _
    · exact h

/-- The type that a reference expects in a collection, if its target was not asked for before. -/
def expected? (c : Catalog) (state : Resolution) (collection : String) (r : Reference) :
    Option DocumentType :=
  match c.target? r with
  | some (key, declared) =>
    if key.1 = collection ∧ key ∉ state.requested then some declared else none
  | none => none

theorem target?_of_expected? {collection : String} {t : DocumentType}
    (h : state.expected? c collection r = some t) :
    ∃ text, c.target? r = some ((collection, text), t) := by
  unfold expected? at h
  split at h
  · rename_i key declared htarget
    split at h
    · rename_i hkey
      cases h
      exact ⟨key.2, by rw [htarget, ← hkey.1]⟩
    · cases h
  · cases h

/-- **The first reference into a collection decides on the type** that is expected there. -/
theorem declared_foldl {collection : String} :
    ((references.foldl (state.want c) wanted).get? collection).map (·.declared) =
      ((wanted.get? collection).map (·.declared)).or
        (references.findSome? (state.expected? c collection)) := by
  induction references generalizing wanted with
  | nil => simp
  | cons r rest ih =>
    rw [List.foldl_cons, ih, List.findSome?_cons]
    unfold want expected?
    cases htarget : c.target? r with
    | none => rfl
    | some target =>
      obtain ⟨key, declared⟩ := target
      by_cases hrequested : key ∈ state.requested
      · simp [hrequested]
      · by_cases hcollection : key.1 = collection
        · simp only [hrequested, not_false_eq_true, hcollection, and_self, if_true, if_false,
            Entries.get?_insertSorted_self]
          cases wanted.get? collection <;> simp
        · simp [hrequested, hcollection, Entries.get?_insertSorted]

end

end Resolution

/-! ### Fetched documents -/

/-- Whether a stored document has an id with a text. -/
def Object.hasIdText (doc : Object) (text : String) : Bool :=
  (doc.get? idKey).any fun id => id.text == text

/-- The record that a key leads to: the last one of the collection whose id has that text. -/
def Store.recordAt? (s : Store) (key : ObjectKey) : Option Object :=
  (s.documents key.1).reverse.find? fun doc => doc.hasIdText key.2

namespace Resolution

/-- The document that is found under a key: the record read as what its collection was asked for. -/
def fetched? (c : Catalog) (wanted : Entries Wanted) (store : Store) (key : ObjectKey) :
    Option Document :=
  (wanted.get? key.1).bind fun w =>
    if ∃ id ∈ w.ids, id.text = key.2 then
      (store.recordAt? key).map fun raw => Document.ofStorage c (c.concreteType w.declared raw) raw
    else none

/-- The fetched documents of a collection are found under the texts of their ids, each later one in
place of an earlier one. -/
theorem lookup_accept (c : Catalog) (collection : String) (declared : DocumentType)
    (hopsLeft : Nat) (raws : List Object) (state : Resolution) (key : ObjectKey) :
    (accept c collection declared hopsLeft raws state).2.requested = state.requested ∧
    (accept c collection declared hopsLeft raws state).2.found.lookup key =
      (if key.1 = collection then
        (raws.reverse.find? fun doc => doc.hasIdText key.2).map fun raw =>
          (⟨Document.ofStorage c (c.concreteType declared raw) raw, hopsLeft⟩ : Fetched)
        else none).or (state.found.lookup key) ∧
    (key ∈ (accept c collection declared hopsLeft raws state).1 ↔
      key.1 = collection ∧ ∃ raw ∈ raws, raw.hasIdText key.2 = true) := by
  induction raws generalizing state with
  | nil => simp [accept]
  | cons raw rest ih =>
    cases hid : raw.get? idKey with
    | none =>
      have hnot : ∀ text, raw.hasIdText text = false := fun text => by
        simp [Object.hasIdText, hid]
      simp only [accept, hid]
      obtain ⟨hrequested, hlookup, hmem⟩ := ih state
      refine ⟨hrequested, ?_, ?_⟩
      · rw [hlookup]
        simp [List.find?_append, hnot]
      · rw [hmem]
        simp [hnot]
    | some id =>
      have htext : ∀ text, raw.hasIdText text = (id.text == text) := fun text => by
        simp [Object.hasIdText, hid]
      simp only [accept, hid]
      obtain ⟨hrequested, hlookup, hmem⟩ := ih { state with
        found := ((collection, id.text), ⟨Document.ofStorage c (c.concreteType declared raw) raw,
          hopsLeft⟩) :: state.found.filter fun e => e.1 != (collection, id.text) }
      refine ⟨hrequested, ?_, ?_⟩
      · rw [hlookup]
        by_cases hkey : key = (collection, id.text)
        · subst hkey
          simp only [if_true, List.reverse_cons, List.find?_append, List.find?_singleton, htext,
            beq_self_eq_true, List.lookup_cons_self]
          cases rest.reverse.find? fun doc => doc.hasIdText id.text <;> rfl
        · have hbeq : (key == (collection, id.text)) = false := beq_eq_false_iff_ne.mpr hkey
          rw [List.lookup_cons, hbeq]
          simp only [lookup_filter_of_ne hkey]
          by_cases hcollection : key.1 = collection
          · have hne : (id.text == key.2) = false :=
              beq_eq_false_iff_ne.mpr fun h => hkey (Prod.ext hcollection h.symm)
            simp [hcollection, List.find?_append, htext, hne]
          · simp [hcollection]
      · simp only [List.mem_cons, hmem, Prod.ext_iff, exists_eq_or_imp, htext, beq_iff_eq,
          and_or_left, @eq_comm String id.text]

/-- Of the records that a lookup finds, the last one under a text is the last one of the
collection. -/
theorem find?_fetch (s : Store) (collection : String) (ids : List Json) (text : String) :
    ((s.fetch collection ids).1.reverse.find? fun doc => doc.hasIdText text) =
      if ∃ id ∈ ids, id.text = text then s.recordAt? (collection, text) else none := by
  have hin : ∀ doc : Object, doc.hasIdText text = true →
      ((doc.get? idKey).any fun id => (ids.map Json.text).contains id.text) =
        decide (∃ id ∈ ids, id.text = text) := by
    intro doc hdoc
    obtain ⟨id, hid, htext⟩ := Option.any_eq_true _ _ |>.mp hdoc
    rw [hid, ← eq_of_beq htext]
    simp
  simp only [Store.fetch, Store.recordAt?, ← List.filter_reverse, List.find?_filter]
  split
  · rename_i hwanted
    congr 1
    funext doc
    cases hdoc : doc.hasIdText text with
    | false => simp
    | true =>
      rw [hin doc hdoc, decide_eq_true hwanted]
      rfl
  · rename_i hunwanted
    refine List.find?_eq_none.mpr fun doc _ => ?_
    cases hdoc : doc.hasIdText text with
    | false => simp
    | true =>
      rw [hin doc hdoc, decide_eq_false hunwanted]
      exact Bool.false_ne_true

section

variable {c : Catalog} {collection : String} {w : Wanted} {rest : Entries Wanted} {store : Store}
  {key : ObjectKey}

theorem wants_cons (h : collection ∉ rest.map Prod.fst) :
    Wants ((collection, w) :: rest) key ↔
      (key.1 = collection ∧ ∃ id ∈ w.ids, id.text = key.2) ∨ Wants rest key := by
  unfold Wants
  rw [Entries.get?_cons]
  by_cases hkey : collection = key.1
  · subst hkey
    simp [Entries.get?_eq_none_iff.mpr h]
  · simp [hkey, Ne.symm hkey]

theorem fetched?_cons (h : collection ∉ rest.map Prod.fst) :
    fetched? c ((collection, w) :: rest) store key =
      ((fetched? c rest store key).or
        (if key.1 = collection then
          (if ∃ id ∈ w.ids, id.text = key.2 then store.recordAt? key else none).map fun raw =>
            Document.ofStorage c (c.concreteType w.declared raw) raw
        else none)) := by
  unfold fetched?
  rw [Entries.get?_cons]
  by_cases hkey : collection = key.1
  · subst hkey
    rw [Entries.get?_eq_none_iff.mpr h]
    simp
    split <;> rfl
  · simp [hkey, Ne.symm hkey]

end

/-- **One round asks for what is wanted and finds what is stored of it.** -/
theorem lookup_fetchAll (c : Catalog) (hopsLeft : Nat) {wanted : Entries Wanted}
    (hwanted : (wanted.map Prod.fst).Nodup) (state : Resolution) (store : Store) (key : ObjectKey) :
    (key ∈ (fetchAll c hopsLeft wanted state store).2.1.requested ↔
      key ∈ state.requested ∨ Wants wanted key) ∧
    (fetchAll c hopsLeft wanted state store).2.1.found.lookup key =
      ((fetched? c wanted store key).map fun doc => (⟨doc, hopsLeft⟩ : Fetched)).or
        (state.found.lookup key) ∧
    (key ∈ (fetchAll c hopsLeft wanted state store).1 ↔
      (fetched? c wanted store key).isSome) := by
  induction wanted generalizing state store with
  | nil => simp [fetchAll, fetched?, not_wants_nil]
  | cons entry rest ih =>
    obtain ⟨collection, w⟩ := entry
    obtain ⟨hnew, hrest⟩ := List.nodup_cons.mp hwanted
    simp only [fetchAll]
    have hstore : ∀ key, fetched? c rest (store.fetch collection w.ids).2 key =
        fetched? c rest store key := fun _ => rfl
    obtain ⟨hrequested, hlookup, hmem⟩ := lookup_accept c collection w.declared hopsLeft
      (store.fetch collection w.ids).1
      { state with requested := state.requested ++ w.ids.map fun id => (collection, id.text) } key
    obtain ⟨ihRequested, ihLookup, ihMem⟩ := ih hrest
      (accept c collection w.declared hopsLeft (store.fetch collection w.ids).1
        { state with
          requested := state.requested ++ w.ids.map fun id => (collection, id.text) }).2
      (store.fetch collection w.ids).2
    refine ⟨?_, ?_, ?_⟩
    · have hids : key ∈ w.ids.map (fun id => (collection, id.text)) ↔
          key.1 = collection ∧ ∃ id ∈ w.ids, id.text = key.2 := by
        simp only [List.mem_map, Prod.ext_iff, @eq_comm String collection]
        exact ⟨fun ⟨id, hid, hc, ht⟩ => ⟨hc, id, hid, ht⟩,
          fun ⟨hc, id, hid, ht⟩ => ⟨id, hid, hc, ht⟩⟩
      rw [ihRequested, hrequested, wants_cons hnew, List.mem_append, hids, or_assoc]
    · rw [ihLookup, hlookup, find?_fetch, hstore, fetched?_cons hnew]
      by_cases hkey : key.1 = collection
      · subst hkey
        cases fetched? c rest store key with
        | none => simp [Function.comp_def]
        | some doc => rfl
      · simp [hkey]
    · have hraws : (∃ raw ∈ (store.fetch collection w.ids).1, raw.hasIdText key.2 = true) ↔
          (if ∃ id ∈ w.ids, id.text = key.2 then store.recordAt? (collection, key.2)
            else none).isSome := by
        rw [← find?_fetch, List.find?_isSome]
        simp
      rw [List.mem_append, hmem, ihMem, hstore, fetched?_cons hnew, hraws, or_comm]
      by_cases hkey : key.1 = collection
      · subst hkey
        simp
      · simp [hkey]

/-- A document is fetched if it is wanted and there is a record for it. -/
theorem fetched?_isSome {c : Catalog} {wanted : Entries Wanted} {store : Store} {key : ObjectKey} :
    (fetched? c wanted store key).isSome ↔
      Wants wanted key ∧ (store.recordAt? key).isSome := by
  unfold fetched? Wants
  cases wanted.get? key.1 with
  | none => simp
  | some w => by_cases hids : ∃ id ∈ w.ids, id.text = key.2 <;> simp [hids]

end Resolution

end DocumentMapper
