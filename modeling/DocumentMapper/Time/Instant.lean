import DocumentMapper.Text.Numeral
import DocumentMapper.Time.Calendar

/-!
# Instants and their RFC 3339 texts

An `Instant` is a point of universal time with nanoseconds. A leap second is the nanoseconds from
one thousand million on of the second before it, so instants are ordered by seconds first.

Reading takes a date with a four-digit year, one of `T`, `t` or a blank, a time of day with an
optional fraction of any length, of which nine digits count, and an offset: `Z`, `z` or hours and
minutes with a sign. Writing gives milliseconds and `Z`; a year outside four digits has a sign.
-/

namespace DocumentMapper.Time

open Text

/-- A point of universal time: seconds since 1970 and nanoseconds, below two thousand million. -/
structure Instant where
  seconds : Int
  nanos : Nat
deriving DecidableEq

namespace Instant

instance : Inhabited Instant := ⟨⟨0, 0⟩⟩

/-- A number of exactly `width` digits, and the text behind it. -/
def readFixed (width : Nat) (cs : List Char) : Option (Nat × List Char) :=
  let digits := cs.take width
  if digits.length = width ∧ digits.all Char.isDigit then some (ofDigits 0 digits, cs.drop width)
  else none

/-- The text behind a given character. -/
def expectChar (c : Char) : List Char → Option (List Char)
  | x :: rest => if x = c then some rest else none
  | [] => none

/-- The text behind the mark between date and time. -/
def expectTimeMark : List Char → Option (List Char)
  | c :: rest => if c = 'T' ∨ c = 't' ∨ c = ' ' then some rest else none
  | [] => none

/-- A fraction of a second in nanoseconds, if there is one; digits after the ninth are ignored. -/
def readNanos : List Char → Option (Nat × List Char)
  | '.' :: rest =>
    let digits := rest.takeWhile Char.isDigit
    if digits.isEmpty then none
    else
      let kept := digits.take 9
      some (ofDigits 0 kept * Nat.pow 10 (9 - kept.length), rest.dropWhile Char.isDigit)
  | cs => some (0, cs)

/-- Hours and minutes of an offset, in seconds: below a day, minutes below sixty. -/
def readOffsetAmount (cs : List Char) : Option (Int × List Char) := do
  let (hours, rest) ← readFixed 2 cs
  let rest ← expectChar ':' rest
  let (minutes, rest) ← readFixed 2 rest
  if minutes < 60 ∧ hours < 24 then return ((hours * 3600 + minutes * 60 : Nat), rest) else none

/-- The offset from universal time in seconds. The minus sign may be the typographic one. -/
def readOffset : List Char → Option (Int × List Char)
  | 'Z' :: rest | 'z' :: rest => some (0, rest)
  | '+' :: rest => readOffsetAmount rest
  | '-' :: rest | '−' :: rest => (readOffsetAmount rest).map fun (n, rest) => (-n, rest)
  | _ => none

/-- The instant of a date, a time of day and an offset. Second sixty is a leap second. -/
def ofParts? (date : Date) (hour minute second nanos : Nat) (offset : Int) : Option Instant :=
  if date.isValid ∧ hour < 24 ∧ minute < 60 ∧ second ≤ 60 then
    let leap := second = 60
    let ofDay : Nat := hour * 3600 + minute * 60 + (if leap then 59 else second)
    some
      { seconds := date.toDayNumber * 86400 + ofDay - offset
        nanos := nanos + (if leap then 1000000000 else 0) }
  else none

/-- The instant that a text denotes. -/
def read? (text : String) : Option Instant := do
  let (year, rest) ← readFixed 4 text.toList
  let rest ← expectChar '-' rest
  let (month, rest) ← readFixed 2 rest
  let rest ← expectChar '-' rest
  let (day, rest) ← readFixed 2 rest
  let rest ← expectTimeMark rest
  let (hour, rest) ← readFixed 2 rest
  let rest ← expectChar ':' rest
  let (minute, rest) ← readFixed 2 rest
  let rest ← expectChar ':' rest
  let (second, rest) ← readFixed 2 rest
  let (nanos, rest) ← readNanos rest
  let (offset, rest) ← readOffset rest
  if rest.isEmpty then ofParts? ⟨year, month, day⟩ hour minute second nanos offset else none

/-- A number with zeros in front up to `width` digits. -/
def padded (width n : Nat) : List Char :=
  let digits := Nat.toDigits 10 n
  List.replicate (width - digits.length) '0' ++ digits

/-- A year: four digits, with a sign outside their range. -/
def yearText (year : Int) : List Char :=
  if 0 ≤ year ∧ year ≤ 9999 then padded 4 year.toNat
  else (if year < 0 then '-' else '+') :: padded 4 year.natAbs

/-- The text of an instant, in universal time with milliseconds. -/
def text (i : Instant) : String :=
  let date := Date.ofDayNumber (i.seconds / 86400)
  let ofDay := (i.seconds % 86400).toNat
  let leap := 1000000000 ≤ i.nanos
  let second := ofDay % 60 + (if leap then 1 else 0)
  let nanos := if leap then i.nanos - 1000000000 else i.nanos
  String.ofList
    (yearText date.year ++ '-' :: padded 2 date.month ++ '-' :: padded 2 date.day
      ++ 'T' :: padded 2 (ofDay / 3600) ++ ':' :: padded 2 (ofDay / 60 % 60)
      ++ ':' :: padded 2 second ++ '.' :: padded 3 (nanos / 1000000) ++ ['Z'])

end Instant

end DocumentMapper.Time
