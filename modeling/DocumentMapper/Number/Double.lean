import DocumentMapper.Number.Binary64

/-!
# Binary64 numbers with infinities and NaN

`Double` adds to the finite numbers the two infinities and the value of an undefined result.
Arithmetic on finite numbers that leaves their range yields an infinity. Comparison is partial:
the undefined value stands in no relation to anything, itself included.
-/

namespace DocumentMapper.Number

/-- A binary64 value. -/
inductive Double where
  | nan
  | infinite (negative : Bool)
  | finite (x : Binary64)
deriving DecidableEq

namespace Double

instance : Inhabited Double := ⟨.finite (.zero false)⟩

/-- A rounded result, infinite where the finite range ends. -/
def ofRounded (negative : Bool) : Option Binary64 → Double
  | some x => .finite x
  | none => .infinite negative

/-- The value nearest to an integer. -/
def ofInt (n : Int) : Double :=
  ofRounded (decide (n < 0)) (Binary64.ofInt? n)

/-- The value nearest to `± digits * 10 ^ exponent`. -/
def ofDecimal (negative : Bool) (digits : Nat) (exponent : Int) : Double :=
  ofRounded negative (Binary64.ofDecimal? negative digits exponent)

/-- The finite number, where there is one. -/
def toFinite? : Double → Option Binary64
  | finite x => some x
  | _ => none

/-- The value on the other side of zero. -/
def neg : Double → Double
  | nan => nan
  | infinite negative => infinite (!negative)
  | finite x => finite x.neg

/-- Whether the value is finite and has no fractional part. -/
def isWhole : Double → Bool
  | finite x => x.isWhole
  | _ => false

/-- Order by value, where the two are comparable. -/
def compare? : Double → Double → Option Ordering
  | nan, _ | _, nan => none
  | finite x, finite y => some (x.compare y)
  | infinite a, infinite b => some (Ord.compare (!a) (!b))
  | infinite a, finite _ => some (if a then .lt else .gt)
  | finite _, infinite b => some (if b then .gt else .lt)

/-- Equality by value: the two zeros are equal and the undefined value differs from itself. -/
def equal (x y : Double) : Bool :=
  x.compare? y == some .eq

/-- Whether the value is at least zero. -/
def isNonNegative (x : Double) : Bool :=
  match x.compare? (.finite (.zero false)) with
  | some .gt | some .eq => true
  | _ => false

/-- The whole part as a signed 64-bit word. Values beyond the range take its nearer end. -/
def toInt64 : Double → Int64
  | nan => 0
  | infinite negative => if negative then Int64.minValue else Int64.maxValue
  | finite x =>
    let n := x.truncate
    if n < Int64.minValue.toInt then Int64.minValue
    else if Int64.maxValue.toInt < n then Int64.maxValue
    else Int64.ofInt n

@[simp] theorem equal_nan (x : Double) : nan.equal x = false := by
  cases x <;> rfl

/-- On finite numbers equality by value is equality of the exact values. -/
theorem equal_finite {x y : Binary64} :
    (finite x).equal (finite y) = true ↔ x.units = y.units := by
  simp [equal, compare?, Binary64.compare]

end Double

end DocumentMapper.Number
