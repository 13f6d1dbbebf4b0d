import DocumentMapper.Number.Double
import DocumentMapper.Number.Whole

/-!
# Reading numbers from texts

Three grammars, all on lists of characters and all of them reading the whole text:

* `natural?` reads ASCII digits, after an optional plus sign, up to a bound;
* `signedWord?` reads ASCII digits after an optional sign, in the range of signed words;
* `double?` reads a decimal number with optional sign, point and exponent, or one of the names
  of the infinities and of the undefined value in any case.
-/

namespace DocumentMapper.Text

open DocumentMapper.Number

/-- The value of an ASCII digit. -/
def digitValue (c : Char) : Nat :=
  c.toNat - 48

/-- The number that a list of ASCII digits writes, after `acc`. -/
def ofDigits (acc : Nat) (cs : List Char) : Nat :=
  cs.foldl (fun n c => 10 * n + digitValue c) acc

/-- Whether the text is one or more ASCII digits. -/
def isDigits (cs : List Char) : Bool :=
  !cs.isEmpty && cs.all Char.isDigit

/-- A number below `bound`, as ASCII digits after an optional plus sign. -/
def natural? (bound : Nat) (cs : List Char) : Option Nat :=
  let digits :=
    match cs with
    | '+' :: rest => rest
    | _ => cs
  if isDigits digits && ofDigits 0 digits < bound then some (ofDigits 0 digits) else none

/-- A list position: a number that fits an unsigned 64-bit word. -/
def position? (s : String) : Option Nat :=
  natural? wordCount s.toList

/-- A signed word, as ASCII digits after an optional sign. -/
def signedWord? (cs : List Char) : Option Int64 :=
  let (negative, digits) : Bool × List Char :=
    match cs with
    | '+' :: rest => (false, rest)
    | '-' :: rest => (true, rest)
    | _ => (false, cs)
  if isDigits digits then
    let n : Int := if negative then -(ofDigits 0 digits : Int) else ofDigits 0 digits
    word? n
  else none

/-- The exponent after its mark: digits after an optional sign. -/
def exponent? (cs : List Char) : Option Int :=
  let (negative, digits) : Bool × List Char :=
    match cs with
    | '+' :: rest => (false, rest)
    | '-' :: rest => (true, rest)
    | _ => (false, cs)
  if isDigits digits then
    some (if negative then -(ofDigits 0 digits : Int) else ofDigits 0 digits)
  else none

/-- Digits with an optional point among them and an optional exponent. There is a digit before or
after the point. -/
def decimal? (negative : Bool) (cs : List Char) : Option Double :=
  let whole := cs.takeWhile Char.isDigit
  let rest := cs.dropWhile Char.isDigit
  let (fraction, rest) : List Char × List Char :=
    match rest with
    | '.' :: more => (more.takeWhile Char.isDigit, more.dropWhile Char.isDigit)
    | _ => ([], rest)
  if whole.isEmpty && fraction.isEmpty then none
  else
    let scaled (e : Int) := Double.ofDecimal negative (ofDigits (ofDigits 0 whole) fraction)
      (e - fraction.length)
    match rest with
    | [] => some (scaled 0)
    | c :: more => if c = 'e' ∨ c = 'E' then (exponent? more).map scaled else none

/-- The value that a name stands for. -/
def named? (negative : Bool) (cs : List Char) : Option Double :=
  let name := String.ofList (cs.map Char.toLower)
  if name = "inf" ∨ name = "infinity" then some (.infinite negative)
  else if name = "nan" then some .nan
  else none

/-- A binary64 value, correctly rounded. -/
def double? (cs : List Char) : Option Double :=
  let (negative, body) : Bool × List Char :=
    match cs with
    | '+' :: rest => (false, rest)
    | '-' :: rest => (true, rest)
    | _ => (false, cs)
  (named? negative body).or (decimal? negative body)

end DocumentMapper.Text
