import DocumentMapper.Json.Basic
import DocumentMapper.Text.Numeral

/-!
# Reading stored values

Reading has two steps. `Literal.read?` checks the grammar and keeps a text as it was written:
every entry of an object, even under a repeated key, and every number with its digits.
`Literal.toJson?` gives the stored value: of entries with the same key the last one counts, in the
place of the first; a whole number in the 64-bit ranges stays whole and any other number becomes
the nearest binary64 number. It fails where a number is too large or a string names half of a
surrogate pair.
-/

namespace DocumentMapper

open Number Text

/-- A number as it was written: `± digits * 10 ^ exponent`. -/
structure Numeral where
  negative : Bool
  digits : Nat
  exponent : Int
  /-- Whether it has neither point nor exponent. -/
  integral : Bool
deriving DecidableEq

/-- A text that follows the grammar. A string with half of a surrogate pair has no characters. -/
inductive Literal where
  | null
  | bool (b : Bool)
  | number (n : Numeral)
  | string (s : Option String)
  | array (items : List Literal)
  | object (entries : List (Option String × Literal))

namespace Literal

instance : Inhabited Literal := ⟨.null⟩

/-- White space between tokens. -/
def isSpace (c : Char) : Bool :=
  c = ' ' || c = '\n' || c = '\t' || c = '\r'

/-- The text behind white space. -/
def skipSpace (cs : List Char) : List Char :=
  cs.dropWhile isSpace

/-- The value of a hexadecimal digit. -/
def hexValue? (c : Char) : Option Nat :=
  if '0' ≤ c ∧ c ≤ '9' then some (c.toNat - 48)
  else if 'a' ≤ c ∧ c ≤ 'f' then some (c.toNat - 87)
  else if 'A' ≤ c ∧ c ≤ 'F' then some (c.toNat - 55)
  else none

/-- The value of four hexadecimal digits. -/
def hexValue4? (a b c d : Char) : Option Nat := do
  return (((← hexValue? a) * 16 + (← hexValue? b)) * 16 + (← hexValue? c)) * 16 + (← hexValue? d)

/-- A character of a string, written as itself or as a 16-bit unit. -/
inductive Piece where
  | char (c : Char)
  | unit (n : Nat)

/-- The character that a one-letter escape stands for. -/
def escaped? (c : Char) : Option Char :=
  if c = '"' ∨ c = '\\' ∨ c = '/' then some c
  else if c = 'b' then some (Char.ofNat 8)
  else if c = 'f' then some (Char.ofNat 12)
  else if c = 'n' then some '\n'
  else if c = 'r' then some '\r'
  else if c = 't' then some '\t'
  else none

/-- The pieces of a string up to its closing quote, and the text behind it. -/
def readPieces : List Char → Option (List Piece × List Char)
  | [] => none
  | '"' :: rest => some ([], rest)
  | '\\' :: 'u' :: a :: b :: c :: d :: rest => do
    let n ← hexValue4? a b c d
    let (pieces, rest) ← readPieces rest
    return (.unit n :: pieces, rest)
  | '\\' :: c :: rest => do
    let e ← escaped? c
    let (pieces, rest) ← readPieces rest
    return (.char e :: pieces, rest)
  | c :: rest =>
    if c.toNat < 32 ∨ c = '\\' then none
    else do
      let (pieces, rest) ← readPieces rest
      return (.char c :: pieces, rest)

/-- The characters of some pieces. Two units of a surrogate pair are one character; half of a pair
is none. -/
def joinPieces : List Piece → Option (List Char)
  | [] => some []
  | .char c :: rest => (joinPieces rest).map (c :: ·)
  | .unit h :: .unit l :: rest =>
    if 0xD800 ≤ h ∧ h < 0xDC00 then
      if 0xDC00 ≤ l ∧ l < 0xE000 then
        (joinPieces rest).map (Char.ofNat (0x10000 + (h - 0xD800) * 0x400 + (l - 0xDC00)) :: ·)
      else none
    else if 0xDC00 ≤ h ∧ h < 0xE000 then none
    else (joinPieces (.unit l :: rest)).map (Char.ofNat h :: ·)
  | .unit n :: rest =>
    if 0xD800 ≤ n ∧ n < 0xE000 then none else (joinPieces rest).map (Char.ofNat n :: ·)

/-- A string behind its opening quote. -/
def readString (cs : List Char) : Option (Option String × List Char) :=
  (readPieces cs).map fun (pieces, rest) => ((joinPieces pieces).map String.ofList, rest)

/-- One or more digits, and the text behind them. -/
def readDigits (cs : List Char) : Option (List Char × List Char) :=
  let digits := cs.takeWhile Char.isDigit
  if digits.isEmpty then none else some (digits, cs.dropWhile Char.isDigit)

/-- A point with digits, if the text has one there. -/
def readFraction : List Char → Option (List Char × List Char)
  | '.' :: rest => readDigits rest
  | cs => some ([], cs)

/-- The digits of an exponent behind its mark and sign. -/
def readExponentDigits (negative : Bool) (cs : List Char) : Option (Option Int × List Char) :=
  (readDigits cs).map fun (digits, rest) =>
    let n : Int := ofDigits 0 digits
    (some (if negative then -n else n), rest)

/-- An exponent, if the text has one there. -/
def readExponent : List Char → Option (Option Int × List Char)
  | c :: rest =>
    if c = 'e' ∨ c = 'E' then
      match rest with
      | '+' :: more => readExponentDigits false more
      | '-' :: more => readExponentDigits true more
      | _ => readExponentDigits false rest
    else some (none, c :: rest)
  | [] => some (none, [])

/-- A number without its sign. Digits before the point begin with zero only if they are zero. -/
def readNumber (negative : Bool) (cs : List Char) : Option (Literal × List Char) := do
  let (whole, rest) ← readDigits cs
  if whole.length ≠ 1 ∧ whole.head? = some '0' then none
  else
    let (fraction, rest) ← readFraction rest
    let (exponent, rest) ← readExponent rest
    return (.number
      { negative
        digits := ofDigits (ofDigits 0 whole) fraction
        exponent := exponent.getD 0 - fraction.length
        integral := fraction.isEmpty && exponent.isNone }, rest)

/-- The text behind a given word. -/
def expectWord (word : List Char) (cs : List Char) : Option (List Char) :=
  if word.isPrefixOf cs then some (cs.drop word.length) else none

mutual

/-- A value, behind white space. The fuel bounds the nesting and the number of items. -/
def readValue : Nat → List Char → Option (Literal × List Char)
  | 0, _ => none
  | fuel + 1, cs =>
    match skipSpace cs with
    | '"' :: rest => (readString rest).map fun (s, rest) => (.string s, rest)
    | '[' :: rest =>
      match skipSpace rest with
      | ']' :: rest => some (.array [], rest)
      | _ => (readItems fuel rest).map fun (items, rest) => (.array items, rest)
    | '\x7b' :: rest =>
      match skipSpace rest with
      | '\x7d' :: rest => some (.object [], rest)
      | _ => (readMembers fuel rest).map fun (entries, rest) => (.object entries, rest)
    | '-' :: rest => readNumber true rest
    | 'n' :: rest => (expectWord "ull".toList rest).map (.null, ·)
    | 't' :: rest => (expectWord "rue".toList rest).map (.bool true, ·)
    | 'f' :: rest => (expectWord "alse".toList rest).map (.bool false, ·)
    | rest => readNumber false rest

/-- One or more items and the closing bracket. -/
def readItems : Nat → List Char → Option (List Literal × List Char)
  | 0, _ => none
  | fuel + 1, cs => do
    let (item, rest) ← readValue fuel cs
    match skipSpace rest with
    | ',' :: rest =>
      let (items, rest) ← readItems fuel rest
      return (item :: items, rest)
    | ']' :: rest => return ([item], rest)
    | _ => none

/-- One or more entries and the closing brace. -/
def readMembers : Nat → List Char → Option (List (Option String × Literal) × List Char)
  | 0, _ => none
  | fuel + 1, cs => do
    let (key, rest) ← match skipSpace cs with
      | '"' :: rest => readString rest
      | _ => none
    let rest ← match skipSpace rest with
      | ':' :: rest => some rest
      | _ => none
    let (value, rest) ← readValue fuel rest
    match skipSpace rest with
    | ',' :: rest =>
      let (entries, rest) ← readMembers fuel rest
      return ((key, value) :: entries, rest)
    | '\x7d' :: rest => return ([(key, value)], rest)
    | _ => none

end

/-- The literal that a whole text is. -/
def read? (text : String) : Option Literal := do
  let cs := text.toList
  let (value, rest) ← readValue (2 * cs.length + 2) cs
  if (skipSpace rest).isEmpty then some value else none

end Literal

/-- The stored number that a numeral denotes. A negative zero is a binary64 number even without a
point. -/
def Numeral.toJson? (n : Numeral) : Option Json :=
  let whole : Option Whole :=
    if n.integral ∧ ¬(n.negative ∧ n.digits = 0) then
      Whole.ofInt? (if n.negative then -(n.digits : Int) else n.digits)
    else none
  match whole with
  | some w => some (.whole w)
  | none => (Double.ofDecimal n.negative n.digits n.exponent).toFinite?.map .float

namespace Literal

mutual

/-- The stored value that a literal denotes. -/
def toJson? : Literal → Option Json
  | null => some .null
  | bool b => some (.bool b)
  | number n => n.toJson?
  | string s => s.map .string
  | array items => (itemsToJson? items).map .array
  | object entries => (entriesToJson? entries []).map .object
termination_by structural l => l

/-- The stored values of some items. -/
def itemsToJson? : List Literal → Option (List Json)
  | [] => some []
  | l :: ls => do return (← toJson? l) :: (← itemsToJson? ls)
termination_by structural ls => ls

/-- Adds the stored entries to those read before. -/
def entriesToJson? : List (Option String × Literal) → Object → Option Object
  | [], acc => some acc
  | (key, l) :: rest, acc => do
    let key ← key
    let value ← toJson? l
    entriesToJson? rest (acc.insert key value)
termination_by structural es => es

end

end Literal

/-- The stored value that a text denotes. -/
def Json.read? (text : String) : Option Json :=
  (Literal.read? text).bind Literal.toJson?

end DocumentMapper
