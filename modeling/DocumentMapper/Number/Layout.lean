import DocumentMapper.Number.Double
import DocumentMapper.Number.Shortest

/-!
# Writing binary64 numbers

The shortest digits of a number are laid out positionally or in scientific notation. A `Layout`
records the decisions of one format. Two formats are used: `Layout.data` for numbers inside
stored documents and `Layout.display` for values shown in messages.
-/

namespace DocumentMapper.Number

/-- The decisions of one number format. -/
structure Layout where
  /-- Decimal exponents of the first digit that are written positionally. -/
  positional : Int → Bool
  /-- Whether a whole number ends in `.0`. -/
  keepsPoint : Bool
  /-- Which neighbour a tie goes to. -/
  tie : Tie

/-- Numbers in documents are positional from `10 ^ (-5)` up to `10 ^ 15` and show a point; ties go
to the even digit. -/
def Layout.data : Layout where
  positional e := decide (-5 ≤ e ∧ e ≤ 15)
  keepsPoint := true
  tie := .toEven

/-- Displayed numbers are always positional and a whole number has no point; ties go up. -/
def Layout.display : Layout where
  positional _ := true
  keepsPoint := false
  tie := .up

/-- The decimal digits of a natural number. -/
def digitsOf (n : Nat) : List Char :=
  Nat.toDigits 10 n

/-- `digits` with a point after the first `whole` of them, zeros filling the gaps. -/
def Layout.writePositional (l : Layout) (digits : List Char) (exponent : Int) : List Char :=
  let count : Int := digits.length
  let whole := count + exponent
  if 0 ≤ exponent then
    digits ++ List.replicate exponent.toNat '0' ++ (if l.keepsPoint then ['.', '0'] else [])
  else if 0 < whole then
    digits.take whole.toNat ++ '.' :: digits.drop whole.toNat
  else
    '0' :: '.' :: List.replicate (-whole).toNat '0' ++ digits

/-- One digit, the others after a point, and the exponent of the first digit with its sign. -/
def writeScientific (digits : List Char) (lead : Int) : List Char :=
  let fraction :=
    match digits.tail with
    | [] => []
    | rest => '.' :: rest
  digits.take 1 ++ fraction ++ 'e' :: (if lead < 0 then '-' else '+') :: digitsOf lead.natAbs

/-- The text of a finite number. -/
def Layout.write (l : Layout) (x : Binary64) : List Char :=
  let d := x.shortest l.tie
  let digits := digitsOf d.digits
  let lead := d.exponent + digits.length - 1
  let body :=
    if l.positional lead then l.writePositional digits d.exponent else writeScientific digits lead
  if x.negative then '-' :: body else body

/-- The text of a binary64 value; the ones that are no numbers have names. -/
def Double.text (l : Layout) : Double → String
  | .nan => "NaN"
  | .infinite true => "-inf"
  | .infinite false => "inf"
  | .finite x => String.ofList (l.write x)

end DocumentMapper.Number
