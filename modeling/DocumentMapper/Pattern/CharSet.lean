import DocumentMapper.Unicode.Case

/-!
# Sets of characters

The sets that patterns are made of: ranges of codes and their Boolean combinations, and the closure
of a set under case. A character is in the closure when some character of the set differs from it
at most in case.
-/

namespace DocumentMapper.Pattern

open Unicode

/-- A set of characters. -/
inductive CharSet where
  | ranges (rs : Ranges)
  | union (a b : CharSet)
  | inter (a b : CharSet)
  | diff (a b : CharSet)
  | symmDiff (a b : CharSet)
  | compl (a : CharSet)
  /-- The closure under case: of all letters, or of those of ASCII alone. -/
  | anyCase (ascii : Bool) (a : CharSet)

namespace CharSet

/-- The set without members. -/
def empty : CharSet := .ranges []

/-- The set of all characters. -/
def full : CharSet := .ranges [(0, 0x10FFFF)]

/-- The set of one character. -/
def single (c : Char) : CharSet := .ranges [(c.toNat, c.toNat)]

/-- Whether a character is in the set. -/
def contains : CharSet → Char → Bool
  | ranges rs, c => inRanges rs c.toNat
  | union a b, c => a.contains c || b.contains c
  | inter a b, c => a.contains c && b.contains c
  | diff a b, c => a.contains c && !b.contains c
  | symmDiff a b, c => a.contains c != b.contains c
  | compl a, c => !a.contains c
  | anyCase ascii a, c =>
    (if ascii then asciiCaseVariants c else caseVariants c).any a.contains

/-- How many ranges the set is written with. -/
def weight : CharSet → Nat
  | ranges rs => rs.length
  | union a b | inter a b | diff a b | symmDiff a b => a.weight + b.weight
  | compl a | anyCase _ a => a.weight

@[simp] theorem contains_single (c d : Char) : (single c).contains d = (d == c) := by
  simp only [single, contains, inRanges, List.any_cons, List.any_nil, Bool.or_false]
  by_cases h : d = c
  · subst h
    simp
  · have hne : d.toNat ≠ c.toNat := fun e => h (Char.toNat_inj.mp e)
    have hbeq : (d == c) = false := by simp [h]
    rw [hbeq, Bool.and_eq_false_iff]
    rcases Nat.lt_or_gt_of_ne hne with hlt | hgt
    · exact .inl (by simpa using hlt)
    · exact .inr (by simpa using hgt)

end CharSet

end DocumentMapper.Pattern
