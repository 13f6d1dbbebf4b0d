import DocumentMapper.Proofs.Runs
import DocumentMapper.Proofs.StoredEdit

/-!
# Parts of containers

A segment names an entry of an object or an item of an array. In an array two segments can be spelled
differently and name the same item, in an object they cannot. Here is shown what every segment names
after a part was written or replaced: the part itself under each of its names, null as far as an
array was filled up to come to it, and what it named before.

## Main results

* `Json.child?_of_namesSame`: the same entry is found under both names;
* `Json.child?_changePart`, `Json.child?_replacePart_of_child?`: what the segments name after a part
  was written or replaced.
-/

namespace DocumentMapper

open Text

namespace Json

/-! ### Names of entries -/

/-- Two segments name the same entry of a container: as positions of an array they are the same
number, anywhere else they are the same text. -/
def namesSame : Json → String → String → Bool
  | array _, s, t =>
    match position? s, position? t with
    | some i, some k => i == k
    | _, _ => s == t
  | _, s, t => s == t

/-- Writing the item that `s` names fills an array up with null as far as the item that `t`
names. -/
def fillsUp : Json → String → String → Bool
  | array items, s, t =>
    match position? s, position? t with
    | some i, some k => items.length ≤ k && k < i
    | _, _ => false
  | _, _, _ => false

@[simp] theorem namesSame_self (j : Json) (s : String) : j.namesSame s s = true := by
  cases j with
  | array items =>
    simp only [namesSame]
    split <;> simp_all
  | null | bool | whole | float | string | object => simp [namesSame]

theorem namesSame_array {items : List Json} {s t : String} {i : Nat} (hs : position? s = some i) :
    (array items).namesSame s t = true ↔ position? t = some i := by
  simp only [namesSame, hs]
  cases ht : position? t with
  | some k => rw [beq_iff_eq, Option.some_inj, eq_comm]
  | none =>
    refine iff_of_false ?_ (by simp)
    rw [beq_iff_eq]
    rintro rfl
    exact absurd (hs.symm.trans ht) (by simp)

/-- The same entry is found under both names. -/
theorem child?_of_namesSame {j : Json} {s t : String} (h : j.namesSame s t = true) :
    j.child? t = j.child? s := by
  cases j with
  | array items =>
    cases hs : position? s with
    | some i => simp only [child?, hs, (namesSame_array hs).mp h]
    | none =>
      have hst : s = t := by simpa [namesSame, hs] using h
      rw [hst]
  | object es =>
    have hst : s = t := by simpa [namesSame] using h
    rw [hst]
  | null | bool | whole | float | string => rfl

/-- Nothing is filled up where something is. -/
theorem child?_of_fillsUp {j : Json} {s t : String} (h : j.fillsUp s t = true) :
    j.child? t = none := by
  cases j with
  | array items =>
    cases hs : position? s with
    | none => simp [fillsUp, hs] at h
    | some i =>
      cases ht : position? t with
      | none => simp [child?, ht]
      | some k =>
        have hk : items.length ≤ k ∧ k < i := by simpa [fillsUp, hs, ht] using h
        simp [child?, ht, hk.1]
  | object | null | bool | whole | float | string => simp [fillsUp] at h

/-! ### Null makes way for an object -/

/-- The value, or an object without entries instead of null. -/
def opened : Json → Json
  | null => object []
  | j => j

theorem getPath?_opened_of_ne_nil {q : List String} (hq : q ≠ []) (j : Json) :
    j.opened.getPath? q = j.getPath? q := by
  cases q with
  | nil => exact absurd rfl hq
  | cons t q => cases j <;> rfl

/-- Whether the value is an object or an array. -/
def isContainer : Json → Bool
  | object _ | array _ => true
  | _ => false

theorem isContainer_iff {j : Json} :
    j.isContainer = true ↔ (∃ es, j = object es) ∨ ∃ items, j = array items := by
  cases j <;> simp [isContainer]

/-- A write goes on below a part if the part is a container or makes way for one. -/
theorem writeBelow_eq (path s : String) (new : Json) (p : List String) (part : Json) :
    writeBelow path s new p part =
      if part.opened.isContainer then setSegments path new p part.opened
      else .error (.scalarPart s path) := by
  cases part <;> rfl

/-! ### Parts that are written -/

/-- An array with an item put into it has that item, null as far as it was filled up, and the old
items. -/
theorem getElem?_putItem (items : List Json) (i : Nat) (v : Json) (k : Nat) :
    (putItem items i v)[k]? =
      if k = i then some v
      else if items.length ≤ k ∧ k < i then some null else items[k]? := by
  unfold putItem
  split
  · rename_i hlt
    by_cases hki : k = i
    · simp [hki, hlt]
    · rw [List.getElem?_set_ne (Ne.symm hki), if_neg hki, if_neg (by omega)]
  · rename_i hge
    rw [List.append_assoc]
    by_cases hk : k < items.length
    · rw [List.getElem?_append_left hk, if_neg (by omega), if_neg (by omega)]
    · rw [List.getElem?_append_right (by omega)]
      by_cases hfill : k < i
      · rw [List.getElem?_append_left (by simp; omega), if_neg (by omega),
          if_pos ⟨by omega, hfill⟩, List.getElem?_replicate_of_lt (by omega)]
      · rw [List.getElem?_append_right (by simp; omega), List.length_replicate]
        by_cases hki : k = i
        · simp [hki]
        · rw [if_neg hki, if_neg (by omega), List.getElem?_eq_none (by simp; omega),
            List.getElem?_eq_none (by omega)]

/-- An item is replaced where it was put. -/
theorem set_putItem (items : List Json) (i : Nat) (v w : Json) :
    (putItem items i v).set i w = putItem items i w := by
  unfold putItem
  split
  · rw [List.set_set]
  · rename_i hge
    have hlength : (items ++ List.replicate (i - items.length) null).length = i := by
      rw [List.length_append, List.length_replicate]
      omega
    rw [List.set_append_right _ _ (Nat.le_of_eq hlength), hlength, Nat.sub_self]
    rfl

/-- **What the segments name after one of them was written.** -/
theorem child?_changePart {path s : String} {F : Json → Except StoreError Json} {j j' : Json}
    (hcontainer : j.isContainer = true) (h : changePart path s F j = .ok j') :
    ∃ part', F ((j.child? s).getD null) = .ok part' ∧
      ∀ t, j'.child? t =
        if j.namesSame s t then some part'
        else if j.fillsUp s t then some null else j.child? t := by
  rcases isContainer_iff.mp hcontainer with ⟨es, rfl⟩ | ⟨items, rfl⟩
  · rw [changePart_object] at h
    obtain ⟨part', hF, hpure⟩ := bind_eq_ok.mp h
    cases hpure
    refine ⟨part', hF, fun t => ?_⟩
    simp only [child?, namesSame, fillsUp, Entries.get?_insert, beq_iff_eq]
    simp
  · rw [changePart_array] at h
    split at h
    · rename_i i hposition
      obtain ⟨part', hF, hpure⟩ := bind_eq_ok.mp h
      cases hpure
      refine ⟨part', by simpa [child?, hposition] using hF, fun t => ?_⟩
      cases ht : position? t with
      | none =>
        have hother : (array items).namesSame s t = false := by
          rw [← Bool.not_eq_true, namesSame_array hposition, ht]
          simp
        simp [hother, child?, fillsUp, ht]
      | some k =>
        simp [child?, namesSame, fillsUp, hposition, ht, getElem?_putItem, @eq_comm _ k i]
    · cases h

/-- Writing along a path changes the part that its first segment names. -/
theorem exists_changePart (path : String) (new : Json) (s : String) (p : List String) (j : Json) :
    ∃ F, setSegments path new (s :: p) j = changePart path s F j ∧
      (p ≠ [] → F = writeBelow path s new p) := by
  cases p with
  | nil => exact ⟨_, rfl, fun h => absurd rfl h⟩
  | cons next p => exact ⟨_, setSegments_cons_cons path s next new p j, fun _ => rfl⟩

/-! ### Parts that are replaced -/

theorem getPath?_of_child? {j part : Json} {s : String} (h : j.child? s = some part)
    (p : List String) : j.getPath? (s :: p) = part.getPath? p := by
  rw [getPath?, h, Option.bind_some]

/-- What the segments name after the part was replaced that one of them names. -/
theorem child?_replacePart_of_child? {j part : Json} {s : String} (h : j.child? s = some part)
    (new : Json) (t : String) :
    (replacePart s new j).child? t = if j.namesSame s t then some new else j.child? t := by
  rcases isContainer_of_child? h with ⟨es, rfl⟩ | ⟨items, rfl⟩
  · simp [replacePart_object, child?, namesSame, Entries.get?_insert]
  · obtain ⟨i, hs, hitem⟩ := Option.bind_eq_some_iff.mp h
    have hlt := (List.getElem?_eq_some_iff.mp hitem).1
    simp only [replacePart_array, hs, child?]
    cases ht : position? t with
    | none =>
      have hother : (array items).namesSame s t ≠ true := by
        rw [Ne, namesSame_array hs, ht]
        simp
      simp [hother]
    | some k =>
      by_cases hik : i = k
      · subst hik
        simp [(namesSame_array hs).mpr ht, hlt]
      · have hother : (array items).namesSame s t ≠ true := by
          rw [Ne, namesSame_array hs, ht, Option.some_inj]
          exact Ne.symm hik
        simp [hother, List.getElem?_set_ne hik]

end Json

end DocumentMapper
