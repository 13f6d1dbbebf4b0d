import DocumentMapper.Unicode.Property

/-!
# Quoted texts in messages

A text between double quotes. Quotes, backslashes, tabs, line ends and the null character are
written with a backslash, and a character that cannot be shown on its own is written by its code
in braces: control and format characters, marks, unassigned codes and separators other than the
blank.
-/

namespace DocumentMapper.Text

open Unicode

/-- The characters that are written by their code. -/
def hiddenRanges : Ranges :=
  ["Cc", "Cf", "Co", "Cn", "Zl", "Zp", "Zs", "Mn", "Me"].flatMap category

/-- The written form of a character between quotes. -/
def quotedChar (c : Char) : List Char :=
  if c = '"' then ['\\', '"']
  else if c = '\\' then ['\\', '\\']
  else if c = '\t' then ['\\', 't']
  else if c = '\r' then ['\\', 'r']
  else if c = '\n' then ['\\', 'n']
  else if c.toNat = 0 then ['\\', '0']
  else if 32 ≤ c.toNat ∧ c.toNat < 127 then [c]
  else if inRanges hiddenRanges c.toNat then
    "\\u\x7b".toList ++ Nat.toDigits 16 c.toNat ++ ['\x7d']
  else [c]

/-- A text between quotes. -/
def quoted (text : String) : String :=
  String.ofList ('"' :: text.toList.flatMap quotedChar ++ ['"'])

end DocumentMapper.Text
