import DocumentMapper.Entries

/-!
# Laws of entries

How reading a key, writing it and erasing it work together, and what the three have to do with the
list of entries. Writing and erasing keep keys distinct, and where they are distinct an erased key
has no value any more.

## Main results

* `Entries.get?_of_mem`, `Entries.get?_isSome_iff`: reading finds the entries;
* `Entries.get?_insert`, `Entries.get?_erase`: reading after a write and after an erasure;
* `Entries.perm_swapErase`: erasing by a swap takes out one entry and loses no other.
-/

namespace DocumentMapper

namespace Entries

variable {α : Type}

/-- The value of a key belongs to an entry. -/
theorem mem_of_get? {es : Entries α} {key : String} {value : α} (h : es.get? key = some value) :
    (key, value) ∈ es := by
  induction es with
  | nil => simp at h
  | cons e rest ih =>
    obtain ⟨k, v⟩ := e
    by_cases hk : k = key
    · simp only [get?, hk, ↓reduceIte, Option.some.injEq] at h
      simp [hk, h]
    · simp only [get?, hk, ↓reduceIte] at h
      exact List.mem_cons_of_mem _ (ih h)

/-- Where keys are distinct, every entry gives the value of its key. -/
theorem get?_of_mem {es : Entries α} (hkeys : (es.map Prod.fst).Nodup) {key : String} {value : α}
    (h : (key, value) ∈ es) : es.get? key = some value := by
  induction es with
  | nil => simp at h
  | cons e rest ih =>
    obtain ⟨k, v⟩ := e
    simp only [List.map_cons, List.nodup_cons] at hkeys
    rcases List.mem_cons.mp h with heq | hrest
    · cases heq
      simp [get?]
    · have hk : k ≠ key := by
        rintro rfl
        exact hkeys.1 (List.mem_map.mpr ⟨_, hrest, rfl⟩)
      simp only [get?, hk, ↓reduceIte]
      exact ih hkeys.2 hrest

/-- A key has a value exactly when it is one of the keys. -/
theorem get?_isSome_iff {es : Entries α} {key : String} :
    (es.get? key).isSome ↔ key ∈ es.map Prod.fst := by
  induction es with
  | nil => simp
  | cons e rest ih =>
    obtain ⟨k, v⟩ := e
    by_cases hk : k = key
    · simp [get?, hk]
    · simp [get?, hk, ih, Ne.symm hk]

theorem get?_eq_none_iff {es : Entries α} {key : String} :
    es.get? key = none ↔ key ∉ es.map Prod.fst := by
  rw [← Option.not_isSome_iff_eq_none, get?_isSome_iff]

/-- Reading entries with more behind them. -/
theorem get?_append (es more : Entries α) (key : String) :
    get? (es ++ more) key = (es.get? key).or (more.get? key) := by
  induction es with
  | nil => simp
  | cons e rest ih =>
    obtain ⟨k, v⟩ := e
    by_cases hk : k = key
    · simp [get?, hk]
    · simp [get?, hk, ih]

/-! ### Writing -/

/-- Writing what is there already changes nothing. -/
theorem insert_of_get? {es : Entries α} {key : String} {value : α} (h : es.get? key = some value) :
    es.insert key value = es := by
  induction es with
  | nil => simp at h
  | cons e rest ih =>
    obtain ⟨k, v⟩ := e
    by_cases hk : k = key
    · simp only [get?, hk, ↓reduceIte, Option.some.injEq] at h
      simp [insert, hk, h]
    · simp only [get?, hk, ↓reduceIte] at h
      simp [insert, hk, ih h]

/-- What reading finds after a write. -/
theorem get?_insert (es : Entries α) (key : String) (value : α) (other : String) :
    (es.insert key value).get? other = if key = other then some value else es.get? other := by
  by_cases h : key = other
  · subst h
    simp
  · simp [h, get?_insert_of_ne]

/-- An entry after a write is an old one or the written one. -/
theorem mem_insert {es : Entries α} {key : String} {value : α} {e : String × α}
    (h : e ∈ es.insert key value) : e ∈ es ∨ e = (key, value) := by
  induction es with
  | nil => simpa [insert] using h
  | cons first rest ih =>
    obtain ⟨k, v⟩ := first
    by_cases hk : k = key
    · simp only [insert, hk, ↓reduceIte, List.mem_cons] at h
      rcases h with h | h
      · exact .inr h
      · exact .inl (List.mem_cons_of_mem _ h)
    · simp only [insert, hk, ↓reduceIte, List.mem_cons] at h
      rcases h with rfl | h
      · exact .inl List.mem_cons_self
      · rcases ih h with h | h
        · exact .inl (List.mem_cons_of_mem _ h)
        · exact .inr h

/-- A key after a write is an old one or the written one. -/
theorem mem_keys_insert {es : Entries α} {key other : String} {value : α} :
    other ∈ (es.insert key value).map Prod.fst ↔ other = key ∨ other ∈ es.map Prod.fst := by
  rw [← get?_isSome_iff, ← get?_isSome_iff, get?_insert]
  by_cases h : key = other
  · simp [h]
  · simp [h, Ne.symm h]

/-- Writing keeps keys distinct. -/
theorem nodup_insert {es : Entries α} (h : (es.map Prod.fst).Nodup) (key : String) (value : α) :
    ((es.insert key value).map Prod.fst).Nodup := by
  induction es with
  | nil => simp [insert]
  | cons first rest ih =>
    obtain ⟨k, v⟩ := first
    simp only [List.map_cons, List.nodup_cons] at h
    by_cases hk : k = key
    · subst hk
      simpa [insert] using h
    · simp only [insert, hk, ↓reduceIte, List.map_cons, List.nodup_cons]
      refine ⟨fun hmem => ?_, ih h.2⟩
      rcases mem_keys_insert.mp hmem with heq | hmem
      · exact hk heq
      · exact h.1 hmem

/-- An entry of another key stays when a key is written. -/
theorem mem_insert_of_ne {es : Entries α} {key : String} {value : α} {e : String × α} (h : e ∈ es)
    (hne : e.1 ≠ key) : e ∈ es.insert key value := by
  induction es with
  | nil => cases h
  | cons first rest ih =>
    obtain ⟨k, v⟩ := first
    by_cases hk : k = key
    · rcases List.mem_cons.mp h with rfl | h
      · exact absurd hk hne
      · simp [insert, hk, h]
    · rcases List.mem_cons.mp h with rfl | h
      · simp [insert, hk]
      · simp [insert, hk, ih h]

/-- A new key is written behind the others. -/
theorem insert_of_get?_none {es : Entries α} {key : String} (h : es.get? key = none) (value : α) :
    es.insert key value = es ++ [(key, value)] := by
  induction es with
  | nil => rfl
  | cons first rest ih =>
    obtain ⟨k, v⟩ := first
    by_cases hk : k = key
    · simp [get?, hk] at h
    · simp only [get?, hk, ↓reduceIte] at h
      simp [insert, hk, ih h]

/-- New keys are written behind the others. -/
theorem insertAll_of_disjoint {es more : Entries α} (hmore : (more.map Prod.fst).Nodup)
    (h : ∀ e ∈ more, es.get? e.1 = none) : es.insertAll more = es ++ more := by
  induction more generalizing es with
  | nil => simp [insertAll]
  | cons e rest ih =>
    obtain ⟨hfirst, hrest⟩ := List.nodup_cons.mp hmore
    have hnext : ∀ e' ∈ rest, (es.insert e.1 e.2).get? e'.1 = none := by
      intro e' he'
      have hne : e.1 ≠ e'.1 := fun heq => hfirst (heq ▸ List.mem_map_of_mem he')
      rw [get?_insert_of_ne _ _ hne]
      exact h e' (List.mem_cons_of_mem _ he')
    have hall := ih hrest hnext
    rw [insert_of_get?_none (h e List.mem_cons_self)] at hall
    simp only [insertAll, List.foldl_cons] at hall ⊢
    rw [insert_of_get?_none (h e List.mem_cons_self), hall]
    simp

/-! ### Erasing -/

/-- An entry after an erasure is an old one. -/
theorem mem_of_mem_erase {es : Entries α} {key : String} {e : String × α} (h : e ∈ es.erase key) :
    e ∈ es := by
  induction es with
  | nil => simp [erase] at h
  | cons first rest ih =>
    obtain ⟨k, v⟩ := first
    by_cases hk : k = key
    · simp only [erase, hk, ↓reduceIte] at h
      exact List.mem_cons_of_mem _ h
    · simp only [erase, hk, ↓reduceIte, List.mem_cons] at h
      rcases h with rfl | h
      · exact List.mem_cons_self
      · exact List.mem_cons_of_mem _ (ih h)

/-- Erasing keeps keys distinct. -/
theorem nodup_erase {es : Entries α} (h : (es.map Prod.fst).Nodup) (key : String) :
    ((es.erase key).map Prod.fst).Nodup := by
  induction es with
  | nil => simp [erase]
  | cons first rest ih =>
    obtain ⟨k, v⟩ := first
    simp only [List.map_cons, List.nodup_cons] at h
    by_cases hk : k = key
    · simpa [erase, hk] using h.2
    · simp only [erase, hk, ↓reduceIte, List.map_cons, List.nodup_cons]
      refine ⟨fun hmem => ?_, ih h.2⟩
      obtain ⟨e, he, hek⟩ := List.mem_map.mp hmem
      exact h.1 (List.mem_map.mpr ⟨e, mem_of_mem_erase he, hek⟩)

/-- Erasing one key leaves every other key alone. -/
theorem get?_erase_of_ne (es : Entries α) {key other : String} (h : key ≠ other) :
    (es.erase key).get? other = es.get? other := by
  induction es with
  | nil => rfl
  | cons first rest ih =>
    obtain ⟨k, v⟩ := first
    by_cases hk : k = key
    · subst hk
      simp [erase, get?, h]
    · by_cases ho : k = other
      · subst ho
        simp [erase, hk, get?]
      · simp [erase, hk, get?, ho, ih]

/-- What reading finds after an erasure, where keys are distinct. -/
theorem get?_erase {es : Entries α} (h : (es.map Prod.fst).Nodup) (key other : String) :
    (es.erase key).get? other = if key = other then none else es.get? other := by
  by_cases hne : key = other
  · subst hne
    induction es with
    | nil => simp [erase]
    | cons first rest ih =>
      obtain ⟨k, v⟩ := first
      simp only [List.map_cons, List.nodup_cons] at h
      by_cases hk : k = key
      · subst hk
        have hnone : get? rest k = none := get?_eq_none_iff.mpr h.1
        simp [erase, hnone]
      · simp only [↓reduceIte] at ih
        simp [erase, hk, get?, ih h.2]
  · simp [hne, get?_erase_of_ne]

theorem swapErase_of_get?_none {es : Entries α} {key : String} (h : es.get? key = none) :
    es.swapErase key = es := by
  induction es with
  | nil => rfl
  | cons first rest ih =>
    obtain ⟨k, v⟩ := first
    by_cases hk : k = key
    · simp [get?, hk] at h
    · simp only [get?, hk, ↓reduceIte] at h
      simp [swapErase, hk, ih h]

/-- Erasing by a swap takes out one entry and loses no other. -/
theorem perm_swapErase {es : Entries α} {key : String} {value : α} (h : es.get? key = some value) :
    es.Perm ((key, value) :: es.swapErase key) := by
  induction es with
  | nil => cases h
  | cons first rest ih =>
    obtain ⟨k, v⟩ := first
    by_cases hk : k = key
    · simp only [get?, hk, ↓reduceIte, Option.some.injEq] at h
      subst hk h
      simp only [swapErase, ↓reduceIte]
      refine List.Perm.cons _ ?_
      cases hlast : rest.getLast? with
      | none =>
        rw [List.getLast?_eq_none_iff.mp hlast]
      | some last =>
        obtain ⟨front, rfl⟩ := List.getLast?_eq_some_iff.mp hlast
        simp
    · simp only [get?, hk, ↓reduceIte] at h
      simp only [swapErase, hk, ↓reduceIte]
      exact ((ih h).cons _).trans (List.Perm.swap _ _ _)

/-- Erasing by a swap keeps keys distinct. -/
theorem nodup_swapErase {es : Entries α} (h : (es.map Prod.fst).Nodup) (key : String) :
    ((es.swapErase key).map Prod.fst).Nodup := by
  cases hkey : es.get? key with
  | none => rwa [swapErase_of_get?_none hkey]
  | some value =>
    have hperm := ((perm_swapErase hkey).map Prod.fst).nodup_iff.mp h
    exact (List.nodup_cons.mp hperm).2

/-! ### Sorted writing -/

theorem get?_insertSorted (es : Entries α) (key : String) (value : α) (other : String) :
    (es.insertSorted key value).get? other = if key = other then some value else es.get? other := by
  by_cases h : key = other
  · subst h
    simp
  · rw [get?_insertSorted_of_ne es value h, if_neg h]

/-- An entry of sorted entries with one more is an old one or the new one. -/
theorem mem_insertSorted {es : Entries α} {key : String} {value : α} {e : String × α}
    (h : e ∈ es.insertSorted key value) : e ∈ es ∨ e = (key, value) := by
  induction es with
  | nil => exact .inr (List.mem_singleton.mp h)
  | cons first rest ih =>
    obtain ⟨k, v⟩ := first
    simp only [insertSorted] at h
    split at h
    · rename_i hk
      rcases List.mem_cons.mp h with rfl | h
      · exact .inr (by rw [hk])
      · exact .inl (List.mem_cons_of_mem _ h)
    · split at h
      · rcases List.mem_cons.mp h with rfl | h
        · exact .inr rfl
        · exact .inl h
      · rcases List.mem_cons.mp h with rfl | h
        · exact .inl List.mem_cons_self
        · rcases ih h with h | h
          · exact .inl (List.mem_cons_of_mem _ h)
          · exact .inr h

/-- Sorted entries with one more have the keys that were there, in their order. -/
theorem keys_sublist_insertSorted (es : Entries α) (key : String) (value : α) :
    (es.map Prod.fst).Sublist ((es.insertSorted key value).map Prod.fst) := by
  induction es with
  | nil => exact List.nil_sublist _
  | cons first rest ih =>
    obtain ⟨k, v⟩ := first
    simp only [insertSorted]
    split
    · exact List.Sublist.refl _
    · split
      · exact List.sublist_cons_self _ _
      · exact ih.cons_cons k

/-- What is read after all entries of one key were dropped. -/
theorem get?_filter_ne (es : Entries α) (key other : String) :
    get? (es.filter fun e => e.1 ≠ key) other =
      if key = other then none else es.get? other := by
  induction es with
  | nil => simp
  | cons e rest ih =>
    obtain ⟨k, v⟩ := e
    by_cases hk : k = key
    · subst hk
      rw [List.filter_cons_of_neg (by simp), ih]
      by_cases ho : k = other <;> simp [get?, ho]
    · rw [List.filter_cons_of_pos (by simpa using hk), get?_cons, ih, get?_cons]
      by_cases ho : k = other
      · subst ho
        simp [Ne.symm hk]
      · simp [ho]

/-- What is read after the value of one key was changed. -/
theorem get?_modify (es : Entries α) (key : String) (f : α → α) (other : String) :
    (es.modify key f).get? other = if key = other then (es.get? key).map f else es.get? other := by
  induction es with
  | nil => simp [modify]
  | cons e rest ih =>
    obtain ⟨k, v⟩ := e
    simp only [modify] at ih
    by_cases hk : k = key
    · subst hk
      by_cases ho : k = other
      · simp [modify, get?, ho]
      · simpa [modify, get?, ho] using ih
    · by_cases ho : k = other
      · subst ho
        simp [modify, get?, hk, Ne.symm hk]
      · simpa [modify, get?, hk, ho] using ih

/-- Changing the value of one key leaves the others alone. -/
theorem get?_modify_of_ne (es : Entries α) {key other : String} (f : α → α) (h : other ≠ key) :
    (es.modify key f).get? other = es.get? other := by
  rw [get?_modify, if_neg (Ne.symm h)]

/-- What the changed key holds afterwards. -/
theorem get?_modify_self {es : Entries α} {key : String} {v : α} (h : es.get? key = some v)
    (f : α → α) : (es.modify key f).get? key = some (f v) := by
  rw [get?_modify, if_pos rfl, h, Option.map_some]

/-- Changing the value of a missing key changes nothing. -/
theorem modify_of_get?_none {es : Entries α} {key : String} (h : es.get? key = none) (f : α → α) :
    es.modify key f = es := by
  have hne : ∀ e ∈ es, e.1 ≠ key := by
    rintro e he rfl
    exact get?_eq_none_iff.mp h (List.mem_map_of_mem he)
  have hsame : ∀ e ∈ es, (if e.1 = key then (e.1, f e.2) else e) = id e := fun e he =>
    if_neg (hne e he)
  exact (List.map_congr_left hsame).trans (List.map_id es)

end Entries

end DocumentMapper
