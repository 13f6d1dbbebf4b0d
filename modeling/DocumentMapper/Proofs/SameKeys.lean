import DocumentMapper.Proofs.EqualityOperands
import DocumentMapper.Proofs.RecordKeys
import DocumentMapper.Proofs.WrittenValues

/-!
# When two ids are the same key

Three parts of a store compare ids. An insertion refuses an id that is equal to a stored one, in any
order of entries. A lookup returns the records whose ids have the same text, and different values
have different texts. An update by key changes a record that meets a filter: it takes numbers by
their value, and an array for any of its items.

So what a lookup finds is a duplicate for an insertion, and the other way round if equal ids are
spelled alike: with their entries in one order and zeros of one sign. A filter finds the duplicates
too, but not only them.

## Main results

* `Object.duplicateOf_iff`: what an insertion takes for a duplicate;
* `Store.mem_fetch_iff`: a lookup finds the ids that are the same value;
* `Store.keys_compared`: the three parts compared.
-/

namespace DocumentMapper

open Text

variable {s : Store} {collection : String} {doc newcomer : Object} {a b : Json}

/-- Whether a record is a duplicate of another one: no collection with the other one takes it. -/
def Object.DuplicateOf (newcomer doc : Object) : Prop :=
  ∀ (s : Store) (collection : String), doc ∈ s.documents collection →
    ∃ id, newcomer.id? = some id ∧
      (Store.insert collection [newcomer] s).1 = .error (.duplicateKey id.text)

namespace Store

/-- One record with an id is refused exactly if an equal id is stored. -/
theorem insert_single (hb : newcomer.id? = some b) :
    (insert collection [newcomer] s).1 =
      if s.hasId collection b then .error (.duplicateKey b.text) else .ok [b] := by
  cases hhas : s.hasId collection b with
  | true =>
    have happend : s.appendNew collection b newcomer = .error (.duplicateKey b.text) := by
      rw [appendNew, if_pos hhas]
      rfl
    simp [insert, hb, happend]
  | false =>
    have happend : s.appendNew collection b newcomer = .ok (s.append collection newcomer) := by
      rw [appendNew, if_neg (by simp [hhas])]
      rfl
    simp [insert, hb, happend, Except.map]

/-- **A lookup finds the records whose ids are the same value.** -/
theorem mem_fetch_iff (hdoc : doc ∈ s.documents collection) (ha : doc.id? = some a) :
    doc ∈ (s.fetch collection [b]).1 ↔ a = b := by
  have hget := (Object.id?_eq_some.mp ha).1
  simp [fetch, List.mem_filter, hdoc, hget, Json.text_injective.eq_iff]

end Store

/-- **An insertion takes a record for a duplicate if the ids are equal.** -/
theorem Object.duplicateOf_iff (ha : doc.id? = some a) (hb : newcomer.id? = some b) :
    newcomer.DuplicateOf doc ↔ a.equal b = true := by
  have hget := (id?_eq_some.mp ha).1
  constructor
  · intro h
    have hdocs : (Store.empty.append "" doc).documents "" = [doc] := rfl
    obtain ⟨id, -, hinsert⟩ := h (Store.empty.append "" doc) "" (by simp [hdocs])
    rw [Store.insert_single hb] at hinsert
    split at hinsert
    · rename_i hhas
      simpa [Store.hasId, hdocs, hget] using hhas
    · cases hinsert
  · intro h s collection hdoc
    refine ⟨b, hb, ?_⟩
    have hhas : s.hasId collection b = true :=
      List.any_eq_true.mpr ⟨doc, hdoc, by simp [hget, h]⟩
    rw [Store.insert_single hb, if_pos hhas]

/-- What is found in one value. -/
theorem finds_singleton_iff :
    Finds b [a] ↔ Same a b ∨ ∃ items, a = .array items ∧ ∃ item ∈ items, Same item b := by
  constructor
  · intro h
    cases h with
    | value hmem h =>
      obtain rfl := List.mem_singleton.mp hmem
      exact .inl h
    | item hmem hitem h => exact .inr ⟨_, (List.mem_singleton.mp hmem).symm, _, hitem, h⟩
  · rintro (h | ⟨items, rfl, item, hitem, h⟩)
    · exact .value (List.mem_singleton.mpr rfl) h
    · exact .item (List.mem_singleton.mpr rfl) hitem h

/-- **The keys of insertions, lookups and filters compared.** What a lookup finds is a duplicate for
an insertion, and a duplicate is found if equal ids are spelled alike. A filter finds the duplicates,
and besides them numbers of the same value and arrays with such an item. -/
theorem Store.keys_compared (hdoc : doc ∈ s.documents collection) (ha : doc.id? = some a)
    (hb : newcomer.id? = some b) (hwa : a.WellFormed) (hwb : b.WellFormed) :
    (doc ∈ (s.fetch collection [b]).1 → newcomer.DuplicateOf doc) ∧
      ((a.content = b.content → a = b) → newcomer.DuplicateOf doc →
        doc ∈ (s.fetch collection [b]).1) ∧
      (¬ b.IsOperators → (doc.meets [(idKey, b)] = .ok true ↔
        newcomer.DuplicateOf doc ∨ SameNumber a b ∨
          ∃ items, a = .array items ∧
            ∃ item ∈ items, item.equal b = true ∨ SameNumber item b)) := by
  rw [mem_fetch_iff hdoc ha, Object.duplicateOf_iff ha hb]
  refine ⟨?_, fun hspelled hequal => ?_, fun hdata => ?_⟩
  · rintro rfl
    exact hwa.equal_self
  · exact hspelled ((Json.equal_iff_content a b hwa hwb).mp hequal)
  · rw [meets_idKey_iff hdata, (Object.id?_eq_some.mp ha).1, Option.toList_some, finds_singleton_iff,
      Same, or_assoc]
    rfl

/-! ### Records with an id only -/

/-- A record with an id and nothing else. -/
def keyed (id : Json) : Object :=
  [(idKey, id)]

/-- A store with one such record. -/
def keyedStore (id : Json) : Store :=
  Store.empty.append "keys" (keyed id)

/-- A key of two entries. -/
def pairKey : Json :=
  .object [("x", .ofInt64 1), ("y", .string "a")]

theorem wellFormed_pairKey : pairKey.WellFormed := by
  refine Json.wellFormed_object.mpr ⟨by decide, fun e he => ?_⟩
  rcases List.mem_pair.mp he with rfl | rfl <;> trivial

theorem keys_compared_pair :
    keyed pairKey ∈ (keyedStore pairKey).documents "keys" ∧ pairKey.WellFormed ∧
      (keyed pairKey).DuplicateOf (keyed pairKey) ∧
      keyed pairKey ∈ ((keyedStore pairKey).fetch "keys" [pairKey]).1 ∧
      (keyed pairKey).meets [(idKey, pairKey)] = .ok true := by
  have hdoc : keyed pairKey ∈ (keyedStore pairKey).documents "keys" := List.mem_singleton.mpr rfl
  have hid : (keyed pairKey).id? = some pairKey := rfl
  have hfound : keyed pairKey ∈ ((keyedStore pairKey).fetch "keys" [pairKey]).1 :=
    (Store.mem_fetch_iff hdoc hid).mpr rfl
  have hdata : ¬ pairKey.IsOperators := by
    rintro ⟨entries, hentries, hoperators⟩
    obtain rfl := Json.object.inj hentries
    cases hoperators
  obtain ⟨hduplicate, -, hmeets⟩ :=
    Store.keys_compared hdoc hid hid wellFormed_pairKey wellFormed_pairKey
  exact ⟨hdoc, wellFormed_pairKey, hduplicate hfound, hfound,
    (hmeets hdata).mpr (.inl (hduplicate hfound))⟩

/-- A filter for an item of an id finds a record that is neither a duplicate nor looked up. -/
theorem item_found_not_duplicate :
    keyed (.array [.ofInt64 1]) ∈ (keyedStore (.array [.ofInt64 1])).documents "keys" ∧
      (Store.insert "keys" [keyed (.ofInt64 1)] (keyedStore (.array [.ofInt64 1]))).1 =
        .ok [.ofInt64 1] ∧
      ¬ (keyed (.ofInt64 1)).DuplicateOf (keyed (.array [.ofInt64 1])) ∧
      ((keyedStore (.array [.ofInt64 1])).fetch "keys" [.ofInt64 1]).1 = [] ∧
      (keyed (.array [.ofInt64 1])).meets [(idKey, .ofInt64 1)] = .ok true := by
  have hduplicate : ¬ (keyed (.ofInt64 1)).DuplicateOf (keyed (.array [.ofInt64 1])) := by
    rw [Object.duplicateOf_iff rfl rfl]
    exact Bool.false_ne_true
  exact ⟨List.mem_singleton.mpr rfl, rfl, hduplicate, rfl, rfl⟩

/-- The order of entries matters to a lookup, but not to an insertion. -/
example :
    let reordered : Json := .object [("y", .string "a"), ("x", .ofInt64 1)]
    (Store.insert "keys" [keyed reordered] (keyedStore pairKey)).1 =
        .error (.duplicateKey reordered.text) ∧
      ((keyedStore pairKey).fetch "keys" [reordered]).1 = [] :=
  ⟨rfl, rfl⟩

end DocumentMapper
