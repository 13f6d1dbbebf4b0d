/-!
# Whole numbers of documents

A stored whole number is in the union of the signed and the unsigned 64-bit range.
-/

namespace DocumentMapper.Number

/-- How many unsigned words there are. -/
def wordCount : Nat := 18446744073709551616

/-- The signed word that an integer is, where it fits. -/
def word? (n : Int) : Option Int64 :=
  if -9223372036854775808 ≤ n ∧ n < 9223372036854775808 then some (Int64.ofInt n) else none

/-- A whole number from `-2 ^ 63` up to `2 ^ 64 - 1`. -/
structure Whole where
  val : Int
  lower : -9223372036854775808 ≤ val
  upper : val < 18446744073709551616
deriving DecidableEq

namespace Whole

/-- The whole number `n`, where it is in range. -/
def ofInt? (n : Int) : Option Whole :=
  if h : -9223372036854775808 ≤ n ∧ n < 18446744073709551616 then some ⟨n, h.1, h.2⟩ else none

/-- A signed word as a whole number. -/
def ofInt64 (n : Int64) : Whole where
  val := n.toInt
  lower := n.le_toInt
  upper := Int.lt_trans n.toInt_lt (by decide)

/-- The whole number as a signed word, where it fits. -/
def toInt64? (n : Whole) : Option Int64 :=
  word? n.val

/-- The whole number as an unsigned word, where it fits. -/
def toNat? (n : Whole) : Option Nat :=
  if 0 ≤ n.val then some n.val.toNat else none

instance : Inhabited Whole := ⟨ofInt64 0⟩

/-- A whole number is found exactly under its own value. -/
theorem ofInt?_eq_some_iff {n : Int} {w : Whole} : ofInt? n = some w ↔ w.val = n := by
  unfold ofInt?
  split
  · rename_i h
    constructor
    · intro hw
      rw [← Option.some.inj hw]
    · rintro rfl
      rfl
  · rename_i h
    constructor
    · intro hw
      cases hw
    · rintro rfl
      exact absurd ⟨w.lower, w.upper⟩ h

@[simp] theorem toInt64?_ofInt64 (n : Int64) : (ofInt64 n).toInt64? = some n := by
  have lower := n.le_toInt
  have upper := n.toInt_lt
  have h : -9223372036854775808 ≤ n.toInt ∧ n.toInt < 9223372036854775808 := by omega
  simp [toInt64?, ofInt64, word?, h]

theorem ofInt64_of_toInt64? {n : Whole} {w : Int64} (h : n.toInt64? = some w) :
    ofInt64 w = n := by
  unfold toInt64? word? at h
  split at h
  · rename_i hn
    obtain rfl := Option.some.inj h
    cases n with
    | mk v lo hi =>
      simp only [ofInt64, mk.injEq]
      exact Int64.toInt_ofInt_of_le hn.1 hn.2
  · cases h

end Whole

end DocumentMapper.Number
