import Mathlib.Data.List.Sort
import DocumentMapper.Proofs.EntriesLaws

/-!
# Sorted entries

The values of a document and the entries of a dict are sorted by key. Sorted entries are determined
by what is read from them, so two ways of making them are compared key by key.

## Main results

* `Entries.sorted_ofPairs`, `Entries.get?_ofPairs`: pairs become sorted entries with the same
  values;
* `Entries.forall₂_of_get?`: sorted entries that are read alike are alike entry by entry;
* `Entries.ofPairs_of_sorted`: sorted pairs are the entries that they become.
-/

namespace DocumentMapper.Entries

variable {α β : Type}

/-- The keys ascend. -/
def Sorted (es : Entries α) : Prop :=
  (es.map Prod.fst).Pairwise (· < ·)

theorem sorted_nil : Sorted ([] : Entries α) :=
  .nil

theorem sorted_cons {k : String} {v : α} {rest : Entries α} :
    Sorted ((k, v) :: rest) ↔ (∀ key ∈ rest.map Prod.fst, k < key) ∧ Sorted rest := by
  simp [Sorted]

theorem Sorted.nodup {es : Entries α} (h : es.Sorted) : (es.map Prod.fst).Nodup := by
  refine List.Pairwise.imp ?_ h
  rintro k _ hlt rfl
  exact String.lt_irrefl k hlt

/-! ### Entries of pairs -/

theorem mem_keys_insertSorted {es : Entries α} {key other : String} {value : α} :
    other ∈ (es.insertSorted key value).map Prod.fst ↔ other = key ∨ other ∈ es.map Prod.fst := by
  rw [← get?_isSome_iff, ← get?_isSome_iff, get?_insertSorted]
  by_cases h : key = other
  · simp [h]
  · simp [h, Ne.symm h]

/-- Sorted entries with one more are sorted. -/
theorem Sorted.insertSorted {es : Entries α} (h : es.Sorted) (key : String) (value : α) :
    (es.insertSorted key value).Sorted := by
  induction es with
  | nil => simp [Entries.insertSorted, Sorted]
  | cons e rest ih =>
    obtain ⟨k, v⟩ := e
    obtain ⟨hfirst, hrest⟩ := sorted_cons.mp h
    simp only [Entries.insertSorted]
    split
    · exact sorted_cons.mpr ⟨hfirst, hrest⟩
    · rename_i hne
      split
      · rename_i hlt
        refine sorted_cons.mpr ⟨fun other hother => ?_, h⟩
        rcases List.mem_cons.mp hother with rfl | hother
        · exact hlt
        · exact String.lt_trans hlt (hfirst other hother)
      · rename_i hnlt
        refine sorted_cons.mpr ⟨fun other hother => ?_, ih hrest⟩
        rcases mem_keys_insertSorted.mp hother with rfl | hother
        · by_contra hge
          exact hne (String.le_antisymm (String.not_lt.mp hnlt) (String.not_lt.mp hge))
        · exact hfirst other hother

/-- Pairs that are taken into sorted entries one by one leave them sorted. -/
theorem Sorted.foldl_insertSorted {es : Entries α} (h : es.Sorted) (pairs : List (String × α)) :
    (pairs.foldl (fun acc e => acc.insertSorted e.1 e.2) es).Sorted := by
  induction pairs generalizing es with
  | nil => exact h
  | cons e rest ih => exact ih (h.insertSorted e.1 e.2)

/-- **Pairs become sorted entries.** -/
theorem sorted_ofPairs (pairs : List (String × α)) : (ofPairs pairs).Sorted :=
  sorted_nil.foldl_insertSorted pairs

theorem get?_foldl_insertSorted {pairs : List (String × α)} (h : (pairs.map Prod.fst).Nodup)
    (es : Entries α) (key : String) :
    (pairs.foldl (fun acc e => acc.insertSorted e.1 e.2) es).get? key =
      (get? pairs key).or (es.get? key) := by
  induction pairs generalizing es with
  | nil => rfl
  | cons e rest ih =>
    obtain ⟨k, v⟩ := e
    obtain ⟨hk, hrest⟩ := List.nodup_cons.mp h
    rw [List.foldl_cons, ih hrest, get?_insertSorted, get?_cons]
    by_cases heq : k = key
    · subst heq
      have hnone : get? rest k = none := get?_eq_none_iff.mpr hk
      simp [hnone]
    · simp [heq]

theorem mem_keys_foldl_insertSorted {pairs : List (String × α)} {es : Entries α} {key : String} :
    key ∈ (pairs.foldl (fun acc e => acc.insertSorted e.1 e.2) es).map Prod.fst ↔
      key ∈ pairs.map Prod.fst ∨ key ∈ es.map Prod.fst := by
  induction pairs generalizing es with
  | nil => simp
  | cons e rest ih =>
    rw [List.foldl_cons, ih, mem_keys_insertSorted, List.map_cons, List.mem_cons]
    tauto

/-- Pairs and their entries have the same keys. -/
theorem mem_keys_ofPairs {pairs : List (String × α)} {key : String} :
    key ∈ (ofPairs pairs).map Prod.fst ↔ key ∈ pairs.map Prod.fst := by
  rw [ofPairs, mem_keys_foldl_insertSorted, List.map_nil, or_iff_left List.not_mem_nil]

/-- **Pairs with distinct keys become entries with the same values.** -/
theorem get?_ofPairs {pairs : List (String × α)} (h : (pairs.map Prod.fst).Nodup) (key : String) :
    (ofPairs pairs).get? key = get? pairs key := by
  rw [ofPairs, get?_foldl_insertSorted h, get?_nil, Option.or_none]

/-! ### Reading decides -/

/-- Entries with the same keys are alike if their values are. -/
theorem forall₂_of_keys {R : α → β → Prop} {es : Entries α} {fs : Entries β}
    (hkeys : es.map Prod.fst = fs.map Prod.fst) (hnodup : (es.map Prod.fst).Nodup)
    (h : ∀ key, Option.Rel R (es.get? key) (fs.get? key)) :
    List.Forall₂ (fun e f => e.1 = f.1 ∧ R e.2 f.2) es fs := by
  induction es generalizing fs with
  | nil =>
    obtain rfl : fs = [] := by simpa using hkeys.symm
    exact .nil
  | cons e es ih =>
    obtain ⟨k, x⟩ := e
    cases fs with
    | nil => cases hkeys
    | cons f fs =>
      obtain ⟨l, y⟩ := f
      obtain ⟨rfl, hrest⟩ : k = l ∧ es.map Prod.fst = fs.map Prod.fst := by simpa using hkeys
      obtain ⟨hk, hnodup⟩ := List.nodup_cons.mp hnodup
      have hfirst : Option.Rel R (some x) (some y) := by simpa [get?_cons] using h k
      cases hfirst with
      | some hxy =>
        refine .cons ⟨rfl, hxy⟩ (ih hrest hnodup fun key => ?_)
        by_cases heq : k = key
        · subst heq
          have hnone : get? es k = none := get?_eq_none_iff.mpr hk
          have hnone' : get? fs k = none := get?_eq_none_iff.mpr (hrest ▸ hk)
          rw [hnone, hnone']
          exact .none
        · simpa [get?_cons, heq] using h key

/-- **Sorted entries that are read alike are alike entry by entry.** -/
theorem forall₂_of_get? {R : α → β → Prop} {es : Entries α} {fs : Entries β} (hes : es.Sorted)
    (hfs : fs.Sorted) (h : ∀ key, Option.Rel R (es.get? key) (fs.get? key)) :
    List.Forall₂ (fun e f => e.1 = f.1 ∧ R e.2 f.2) es fs := by
  refine forall₂_of_keys (List.Pairwise.eq_of_mem_iff hes hfs fun key => ?_) hes.nodup h
  rw [← get?_isSome_iff, ← get?_isSome_iff]
  have hkey := h key
  generalize es.get? key = x at hkey ⊢
  generalize fs.get? key = y at hkey ⊢
  cases hkey <;> rfl

/-- **Sorted pairs are the entries that they become.** -/
theorem ofPairs_of_sorted {es : Entries α} (h : es.Sorted) : ofPairs es = es := by
  have hsame : List.Forall₂ (fun e f => e.1 = f.1 ∧ e.2 = f.2) (ofPairs es) es := by
    refine forall₂_of_get? (sorted_ofPairs es) h fun key => ?_
    rw [get?_ofPairs h.nodup]
    cases get? es key with
    | none => exact .none
    | some v => exact .some rfl
  rw [← List.forall₂_eq_eq_eq]
  exact hsame.imp fun e f hef => Prod.ext hef.1 hef.2

end DocumentMapper.Entries
