/-!
# Stable sorting by insertion

Items are taken one after the other; each moves to the left past those that it has to precede and
no further. Items of equal rank keep their order. The result is determined for any relation, also
one that is no order.
-/

namespace DocumentMapper

variable {α : Type}

/-- Puts `x` into a list in descending order: behind those that it has to precede. -/
def insertDescending (before : α → α → Bool) (x : α) : List α → List α
  | [] => [x]
  | y :: ys => if before x y then y :: insertDescending before x ys else x :: y :: ys

/-- The items in order, where `before x y` says that `x` has to precede `y`. -/
def stableSort (before : α → α → Bool) (items : List α) : List α :=
  (items.foldl (fun sorted x => insertDescending before x sorted) []).reverse

theorem insertDescending_perm (before : α → α → Bool) (x : α) (ys : List α) :
    (insertDescending before x ys).Perm (x :: ys) := by
  induction ys with
  | nil => exact .refl _
  | cons y ys ih =>
    by_cases h : before x y
    · simp only [insertDescending, h, ↓reduceIte]
      exact (ih.cons y).trans (.swap x y ys)
    · simp [insertDescending, h]

/-- Sorting neither loses nor invents items. -/
theorem stableSort_perm (before : α → α → Bool) (items : List α) :
    (stableSort before items).Perm items := by
  have key : ∀ (items acc : List α),
      (items.foldl (fun sorted x => insertDescending before x sorted) acc).Perm (items ++ acc) := by
    intro items
    induction items with
    | nil => intro acc; exact .refl _
    | cons x xs ih =>
      intro acc
      refine (ih _).trans ?_
      exact ((insertDescending_perm before x acc).append_left xs).trans List.perm_middle
  have h := key items []
  rw [List.append_nil] at h
  exact (List.reverse_perm _).trans h

end DocumentMapper
