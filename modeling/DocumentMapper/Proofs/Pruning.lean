import DocumentMapper.Proofs.Content

/-!
# Stored values up to blank entries

Null, an empty array and an empty object are blank: an attribute without value, one with an empty
list and one with an empty dict are hard to tell apart for the reader of a stored document. Pruning
drops the blank entries of every object, from the inside out, so that an object of which nothing is
left counts as blank itself. The items of arrays stay.

`Json.pruned` prunes a stored value; as everywhere, the first entry of a key is the one that counts.
`Content.pruned` does the same where the order of entries is forgotten.

## Main results

* `Json.content_pruned`: the two agree;
* `Json.pruned_equal_iff`: pruned values are equal exactly when their contents are.
-/

namespace DocumentMapper

/-! ### Stored values -/

/-- Null and the containers with nothing in them. -/
def Json.isBlank : Json → Bool
  | .null | .array [] | .object [] => true
  | _ => false

mutual

/-- The value without the blank entries of its objects. -/
def Json.pruned : Json → Json
  | .array items => .array (prunedItems items)
  | .object es => .object (prunedEntries es)
  | j => j
termination_by structural j => j

/-- The items without the blank entries of their objects. -/
def prunedItems : List Json → List Json
  | [] => []
  | j :: js => j.pruned :: prunedItems js
termination_by structural js => js

/-- The first entry of each key, unless it is blank. -/
def prunedEntries : List (String × Json) → List (String × Json)
  | [] => []
  | (k, j) :: rest =>
    let others := (prunedEntries rest).filter fun e => e.1 ≠ k
    if j.pruned.isBlank then others else (k, j.pruned) :: others
termination_by structural es => es

end

/-! ### Contents -/

namespace Content

/-- Null and the containers with nothing in them. -/
def Blank : Content → Prop
  | null => True
  | array items => items = []
  | object entry => ∀ key, entry key = none
  | _ => False

end Content

open Classical in
mutual

/-- The content without the blank entries of its objects. -/
noncomputable def Content.pruned : Content → Content
  | .array items => .array (prunedContents items)
  | .object entry => .object fun key => prunedPart (entry key)
  | v => v
termination_by structural v => v

/-- The items without the blank entries of their objects. -/
noncomputable def prunedContents : List Content → List Content
  | [] => []
  | v :: vs => v.pruned :: prunedContents vs
termination_by structural vs => vs

/-- What is left of an entry. -/
noncomputable def prunedPart : Option Content → Option Content
  | none => none
  | some v => if v.pruned.Blank then none else some v.pruned
termination_by structural part => part

end

@[simp] theorem prunedContents_eq_map (items : List Content) :
    prunedContents items = items.map Content.pruned := by
  induction items with
  | nil => rfl
  | cons v vs ih => simp [prunedContents, ih]

@[simp] theorem prunedPart_none : prunedPart none = none := rfl

/-- Nothing is left of a blank entry. -/
theorem prunedPart_blank {v : Content} (h : v.pruned.Blank) : prunedPart (some v) = none := by
  simp [prunedPart, h]

@[simp] theorem prunedPart_null : prunedPart (some .null) = none :=
  prunedPart_blank trivial

/-- Null in place of a missing entry makes no difference. -/
theorem prunedPart_getD_null (part : Option Content) :
    prunedPart (some (part.getD .null)) = prunedPart part := by
  cases part with
  | none => exact prunedPart_null
  | some v => rfl

/-- What is left of an entry depends on what is left of its value. -/
theorem prunedPart_congr {p q : Option Content}
    (h : (p.getD .null).pruned = (q.getD .null).pruned) : prunedPart p = prunedPart q := by
  rw [← prunedPart_getD_null p, ← prunedPart_getD_null q, prunedPart, prunedPart, h]

/-! ### Agreement -/

mutual

/-- A pruned value has each key once in every object. -/
theorem Json.wellFormed_pruned : ∀ (j : Json), j.pruned.WellFormed
  | .array items => wellFormed_prunedItems items
  | .object es => Json.wellFormed_object.mpr (wellFormed_prunedEntries es)
  | .null => trivial
  | .bool _ => trivial
  | .whole _ => trivial
  | .float _ => trivial
  | .string _ => trivial
termination_by structural j => j

/-- The same for items. -/
theorem wellFormed_prunedItems : ∀ (js : List Json), itemsWellFormed (prunedItems js)
  | [] => trivial
  | j :: js => ⟨Json.wellFormed_pruned j, wellFormed_prunedItems js⟩
termination_by structural js => js

/-- The same for entries. -/
theorem wellFormed_prunedEntries : ∀ (es : List (String × Json)),
    ((prunedEntries es).map Prod.fst).Nodup ∧ ∀ e ∈ prunedEntries es, e.2.WellFormed
  | [] => by simp [prunedEntries]
  | (k, j) :: rest => by
    obtain ⟨hnodup, hall⟩ := wellFormed_prunedEntries rest
    have hothers : (((prunedEntries rest).filter fun e => e.1 ≠ k).map Prod.fst).Nodup :=
      hnodup.sublist (List.filter_sublist.map _)
    have hothersAll : ∀ e ∈ (prunedEntries rest).filter fun e => e.1 ≠ k, e.2.WellFormed :=
      fun e he => hall e (List.mem_filter.mp he).1
    simp only [prunedEntries]
    split
    · exact ⟨hothers, hothersAll⟩
    · refine ⟨List.nodup_cons.mpr ⟨fun hk => ?_, hothers⟩, fun e he => ?_⟩
      · obtain ⟨e, he, heq⟩ := List.mem_map.mp hk
        have hne := (List.mem_filter.mp he).2
        simp only [decide_not, Bool.not_eq_true', decide_eq_false_iff_not] at hne
        exact hne heq
      · rcases List.mem_cons.mp he with rfl | he
        · exact Json.wellFormed_pruned j
        · exact hothersAll e he
termination_by structural es => es

end

/-- A stored value is blank exactly when its content is. -/
theorem Json.isBlank_iff (j : Json) : j.isBlank = true ↔ j.content.Blank := by
  cases j with
  | array items =>
    cases items <;> simp [isBlank, content, contentItems, Content.Blank]
  | object es =>
    cases es with
    | nil => simp [isBlank, content, contentEntry, Content.Blank]
    | cons e rest =>
      obtain ⟨k, j⟩ := e
      simp only [isBlank, content, Content.Blank, Bool.false_eq_true, false_iff, not_forall]
      exact ⟨k, by simp [contentEntry]⟩
  | null => simp [isBlank, content, Content.Blank]
  | bool b => simp [isBlank, content, Content.Blank]
  | whole n => simp [isBlank, content, Content.Blank]
  | float x => simp [isBlank, content, Content.Blank]
  | string s => simp [isBlank, content, Content.Blank]

mutual

/-- **Pruning a stored value prunes its content.** -/
theorem Json.content_pruned : ∀ (j : Json), j.pruned.content = j.content.pruned
  | .array items => by
    have := contentItems_pruned items
    simp only [Json.pruned, Json.content, Content.pruned, this]
  | .object es => by
    simp only [Json.pruned, Json.content, Content.pruned, Content.object.injEq]
    funext key
    exact contentEntry_pruned es key
  | .null => rfl
  | .bool _ => rfl
  | .whole _ => rfl
  | .float _ => rfl
  | .string _ => rfl
termination_by structural j => j

/-- The same for items. -/
theorem contentItems_pruned : ∀ (js : List Json),
    contentItems (prunedItems js) = prunedContents (contentItems js)
  | [] => rfl
  | j :: js => by
    have hj := Json.content_pruned j
    have hjs := contentItems_pruned js
    simp only [prunedItems, contentItems, prunedContents, hj, hjs]
termination_by structural js => js

/-- The same for entries. -/
theorem contentEntry_pruned : ∀ (es : List (String × Json)) (key : String),
    contentEntry (prunedEntries es) key = prunedPart (contentEntry es key)
  | [], _ => rfl
  | (k, j) :: rest, key => by
    have hj := Json.content_pruned j
    have hrest := contentEntry_pruned rest key
    have hblank := Json.isBlank_iff j.pruned
    rw [Entries.get?_content] at hrest ⊢
    simp only [prunedEntries, contentEntry]
    by_cases hk : k = key
    · subst hk
      split
      · rename_i h
        have hprune : j.content.pruned.Blank := hj ▸ hblank.mp h
        rw [Entries.get?_filter_ne, if_pos rfl]
        simp [prunedPart, hprune]
      · rename_i h
        have hprune : ¬ j.content.pruned.Blank := fun hb => h (hblank.mpr (hj ▸ hb))
        simp [Entries.get?, prunedPart, hprune, hj]
    · have hother := Entries.get?_filter_ne (prunedEntries rest) k key
      rw [if_neg hk] at hother
      rw [if_neg hk, ← hrest, ← hother]
      split
      · rfl
      · rw [Entries.get?_cons, if_neg hk]
termination_by structural es => es

end

/-- **Pruned values are equal exactly when their contents are.** -/
theorem Json.pruned_equal_iff (a b : Json) :
    a.pruned.equal b.pruned = true ↔ a.content.pruned = b.content.pruned := by
  rw [Json.equal_iff_content _ _ a.wellFormed_pruned b.wellFormed_pruned, content_pruned,
    content_pruned]

end DocumentMapper
