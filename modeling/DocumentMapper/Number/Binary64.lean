import DocumentMapper.Number.Rounding

/-!
# Finite binary64 numbers

A finite binary64 number is a whole number of *units* of `2 ^ (-1074)`, the smallest positive
one. `Binary64` keeps its sign, a significand below `2 ^ 53` and the power of two that scales
the significand to units, in the one canonical form: a scaled significand is at least
`2 ^ 52`. All arithmetic is on `Nat` and `Int`, so a comparison or a sum is exact before it is
rounded.

## Main definitions

* `Binary64.units` is the exact value, counted in units;
* `Binary64.ofUnits?` rounds a quotient of units to the nearest number, ties to even, and
  fails beyond the largest one;
* `Binary64.add?`, `Binary64.mul?`, `Binary64.ofInt?` and `Binary64.ofDecimal?` are that rounding
  applied to an exact result.
-/

namespace DocumentMapper.Number

/-- A finite binary64 number: `± significand * 2 ^ exponent` units of `2 ^ (-1074)`. -/
structure Binary64 where
  /-- The sign bit. Zero has one too. -/
  negative : Bool
  /-- The digits in base two. -/
  significand : Nat
  /-- The power of two that scales the significand to units. -/
  exponent : Nat
  significand_lt : significand < 9007199254740992
  exponent_le : exponent ≤ 2045
  /-- A scaled significand fills its 53 bits, so a number has one form. -/
  normal : exponent = 0 ∨ 4503599627370496 ≤ significand
deriving DecidableEq

namespace Binary64

/-- How many units make one. -/
def unitsPerOne : Nat := Nat.pow 2 1074

/-- Zero with the given sign. -/
def zero (negative : Bool) : Binary64 where
  negative := negative
  significand := 0
  exponent := 0
  significand_lt := by decide
  exponent_le := by decide
  normal := .inl rfl

/-- The power of two with a full significand at scale `exponent`. -/
def power (negative : Bool) (exponent : Nat) (h : exponent ≤ 2045) : Binary64 where
  negative := negative
  significand := 4503599627370496
  exponent := exponent
  significand_lt := by decide
  exponent_le := h
  normal := .inr (Nat.le_refl _)

/-- The distance from zero, in units. -/
def magnitude (x : Binary64) : Nat :=
  x.significand * Nat.pow 2 x.exponent

/-- The exact value, in units. -/
def units (x : Binary64) : Int :=
  if x.negative then -(x.magnitude : Int) else x.magnitude

/-- The number on the other side of zero. -/
def neg (x : Binary64) : Binary64 :=
  { x with negative := !x.negative }

/-- Order by value. The two zeros are equal. -/
def compare (x y : Binary64) : Ordering :=
  Ord.compare x.units y.units

/-- Equality by value. -/
def equal (x y : Binary64) : Bool :=
  x.units == y.units

/-- The power of two by which a value of about `num / den` units has to be scaled for its
significand to fill 53 bits. -/
def scaleOf (num den : Nat) : Nat :=
  (num / den).log2 - 52

/-- The number nearest to `± num / den` units, ties to even; nothing where the nearest would lie
beyond the largest number. A significand that rounds up to `2 ^ 53` is the next power of two. -/
def ofUnits? (negative : Bool) (num den : Nat) : Option Binary64 :=
  let e := scaleOf num den
  let m := roundHalfEven num (den * Nat.pow 2 e)
  if h : m < 9007199254740992 ∧ e ≤ 2045 ∧ (e = 0 ∨ 4503599627370496 ≤ m) then
    some ⟨negative, m, e, h.1, h.2.1, h.2.2⟩
  else if h : e + 1 ≤ 2045 then
    some (power negative (e + 1) h)
  else
    none

/-- The number nearest to an integer. -/
def ofInt? (n : Int) : Option Binary64 :=
  ofUnits? (decide (n < 0)) (n.natAbs * unitsPerOne) 1

/-- The number nearest to `± digits * 10 ^ exponent`. Beyond four hundred places the result is
known without computing the power. -/
def ofDecimal? (negative : Bool) (digits : Nat) (exponent : Int) : Option Binary64 :=
  if digits = 0 then some (zero negative)
  else
    let places := exponent + digitCount digits
    if 400 < places then none
    else if places < -400 then some (zero negative)
    else if 0 ≤ exponent then ofUnits? negative (digits * Nat.pow 10 exponent.toNat * unitsPerOne) 1
    else ofUnits? negative (digits * unitsPerOne) (Nat.pow 10 (-exponent).toNat)

/-- The rounded sum. A sum of exactly zero is negative only when both terms are. -/
def add? (x y : Binary64) : Option Binary64 :=
  let sum := x.units + y.units
  if sum = 0 then some (zero (x.negative && y.negative))
  else ofUnits? (decide (sum < 0)) sum.natAbs 1

/-- The rounded product. -/
def mul? (x y : Binary64) : Option Binary64 :=
  ofUnits? (x.negative != y.negative) (x.magnitude * y.magnitude) unitsPerOne

/-- Whether the number has no fractional part. -/
def isWhole (x : Binary64) : Bool :=
  x.magnitude % unitsPerOne == 0

/-- The whole part, toward zero. -/
def truncate (x : Binary64) : Int :=
  x.units.tdiv unitsPerOne

/-- Whether the number is one of the two zeros. -/
def isZero (x : Binary64) : Bool :=
  x.significand == 0

@[simp] theorem units_zero (negative : Bool) : (zero negative).units = 0 := by
  cases negative <;> simp [units, magnitude, zero]

/-- Equality by value is equality of the exact values. -/
theorem equal_iff {x y : Binary64} : x.equal y = true ↔ x.units = y.units := by
  simp [equal]

end Binary64

end DocumentMapper.Number
