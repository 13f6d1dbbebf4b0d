import DocumentMapper.Number.Binary64

/-!
# The fewest decimal digits that read back

A binary64 number is the nearest one for every real in an interval around it, ends included
when its significand is even. `shortest` looks at the decimal grids of one, two, up to seventeen
significant digits, in this order, and takes the first grid that has a point in the interval; of
two such points the nearer one, and on an exact tie the one that `Tie` names. If some point of a
grid lies in the interval then so does one of the two neighbours of the number on that grid, so
looking at those two is enough.
-/

namespace DocumentMapper.Number

/-- A positive decimal number `digits * 10 ^ exponent`. -/
structure Decimal where
  digits : Nat
  exponent : Int
deriving DecidableEq

/-- Which of two equally near neighbours is taken. -/
inductive Tie where
  /-- The one with an even last digit. -/
  | toEven
  /-- The larger one. -/
  | up
deriving DecidableEq

namespace Shortest

/-- The interval of reals that round to a number, in quarters of a unit. -/
structure Interval where
  lower : Nat
  centre : Nat
  upper : Nat
  /-- Whether the ends belong to it. -/
  closed : Bool

/-- The reals that round to `x`, by magnitude. Below a power of two the grid of binary64 numbers
is twice as fine, unless the finest grid is reached. -/
def interval (x : Binary64) : Interval :=
  let ulp := Nat.pow 2 x.exponent
  let centre := 4 * x.magnitude
  { lower := centre - (if x.significand = 4503599627370496 ∧ x.exponent ≠ 0 then ulp else 2 * ulp)
    centre := centre
    upper := centre + 2 * ulp
    closed := x.significand % 2 == 0 }

/-- Whether `num / den` quarters of a unit lie in the interval. -/
def Interval.contains (i : Interval) (num den : Nat) : Bool :=
  if i.closed then i.lower * den ≤ num && num ≤ i.upper * den
  else i.lower * den < num && num < i.upper * den

/-- A grid of decimals `d * 10 ^ exponent`: the point `d` is `d * num / den` quarters of a
unit. -/
structure Grid where
  exponent : Int
  num : Nat
  den : Nat

/-- The grid with step `10 ^ exponent`. -/
def grid (exponent : Int) : Grid :=
  if 0 ≤ exponent then
    { exponent, num := Nat.pow 10 exponent.toNat * (4 * Binary64.unitsPerOne), den := 1 }
  else
    { exponent, num := 4 * Binary64.unitsPerOne, den := Nat.pow 10 (-exponent).toNat }

/-- Whether the upper one of the neighbours `d` and `d + 1` of the centre is taken, when both
read back. -/
def takesUpper (tie : Tie) (i : Interval) (g : Grid) (d : Nat) : Bool :=
  let twice := 2 * (i.centre * g.den)
  let middle := (2 * d + 1) * g.num
  if middle < twice then true
  else if twice < middle then false
  else
    match tie with
    | .up => true
    | .toEven => d % 2 == 1

/-- The point of the grid that reads back and is nearest to the centre, if one does. -/
def pick (tie : Tie) (i : Interval) (g : Grid) : Option Nat :=
  let d := i.centre * g.den / g.num
  match i.contains (d * g.num) g.den, i.contains ((d + 1) * g.num) g.den with
  | true, true => some (if takesUpper tie i g d then d + 1 else d)
  | true, false => some d
  | false, true => some (d + 1)
  | false, false => none

/-- The decimal exponent of the first digit: the power of ten at or below the number. -/
def leadingExponent (x : Binary64) : Int :=
  (digitCount (x.magnitude * Nat.pow 10 330 / Binary64.unitsPerOne) : Int) - 331

/-- Tries grids of `count - fuel + 1`, `count - fuel + 2`, up to `count` digits. -/
def search (tie : Tie) (i : Interval) (lead : Int) (count : Nat) : Nat → Option Decimal
  | 0 => none
  | fuel + 1 =>
    let g := grid (lead - (count - (fuel + 1) : Nat))
    match pick tie i g with
    | some d => some ⟨d, g.exponent⟩
    | none => search tie i lead count fuel

/-- Drops trailing zeros of the digits. Fuel bounds their number. -/
def trim : Nat → Decimal → Decimal
  | 0, d => d
  | fuel + 1, d =>
    if d.digits ≠ 0 ∧ d.digits % 10 = 0 then trim fuel ⟨d.digits / 10, d.exponent + 1⟩ else d

end Shortest

open Shortest in
/-- The fewest digits that read back as the magnitude of `x`. Zero is written with the single
digit zero. Seventeen digits always read back, so the search ends with a result. -/
def Binary64.shortest (tie : Tie) (x : Binary64) : Decimal :=
  if x.isZero then ⟨0, 0⟩
  else
    match search tie (interval x) (leadingExponent x) 17 17 with
    | some d => trim 20 d
    | none => ⟨0, 0⟩

end DocumentMapper.Number
