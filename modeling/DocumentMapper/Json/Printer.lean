import DocumentMapper.Json.Basic
import DocumentMapper.Number.Layout

/-!
# Writing stored values

No white space, entries in their order. In strings the quote, the backslash and the control
characters are escaped, five of these with a letter of their own; nothing else is.
-/

namespace DocumentMapper.Json

open Number

/-- A hexadecimal digit, in lower case. -/
def hexDigit (n : Nat) : Char :=
  Nat.digitChar n

/-- The written form of a character inside a string. -/
def escapeChar (c : Char) : List Char :=
  if c = '"' then ['\\', '"']
  else if c = '\\' then ['\\', '\\']
  else if c = '\n' then ['\\', 'n']
  else if c = '\r' then ['\\', 'r']
  else if c = '\t' then ['\\', 't']
  else if c.toNat = 8 then ['\\', 'b']
  else if c.toNat = 12 then ['\\', 'f']
  else if c.toNat < 32 then
    ['\\', 'u', '0', '0', hexDigit (c.toNat / 16), hexDigit (c.toNat % 16)]
  else [c]

/-- A string between quotes, in front of `tail`. -/
def quote (s : String) (tail : List Char) : List Char :=
  '"' :: s.toList.foldr (fun c acc => escapeChar c ++ acc) ('"' :: tail)

/-- The digits of an integer, with a minus sign below zero. -/
def integerText (n : Int) : List Char :=
  if n < 0 then '-' :: digitsOf n.natAbs else digitsOf n.natAbs

mutual

/-- The text of a value, in front of `tail`. -/
def write : Json → List Char → List Char
  | null, tail => "null".toList ++ tail
  | bool true, tail => "true".toList ++ tail
  | bool false, tail => "false".toList ++ tail
  | whole n, tail => integerText n.val ++ tail
  | float x, tail => Layout.data.write x ++ tail
  | string s, tail => quote s tail
  | array [], tail => '[' :: ']' :: tail
  | array (v :: vs), tail => '[' :: write v (writeItems vs (']' :: tail))
  | object [], tail => '\x7b' :: '\x7d' :: tail
  | object ((k, v) :: es), tail =>
    '\x7b' :: quote k (':' :: write v (writeEntries es ('\x7d' :: tail)))
termination_by structural j => j

/-- The items after the first one, each behind a comma. -/
def writeItems : List Json → List Char → List Char
  | [], tail => tail
  | v :: vs, tail => ',' :: write v (writeItems vs tail)
termination_by structural vs => vs

/-- The entries after the first one, each behind a comma. -/
def writeEntries : List (String × Json) → List Char → List Char
  | [], tail => tail
  | (k, v) :: es, tail => ',' :: quote k (':' :: write v (writeEntries es tail))
termination_by structural es => es

end

/-- The text of a stored value. It is the canonical form of an id too. -/
def text (j : Json) : String :=
  String.ofList (write j [])

end DocumentMapper.Json

namespace DocumentMapper

/-- The text of a stored document. -/
def Object.text (es : Object) : String :=
  (Json.object es).text

end DocumentMapper
