/-!
# Ranges of characters

Tables of characters are written as texts: code points in hexadecimal, one range or single code
per word. `readRanges` turns such a text into pairs of first and last code.
-/

namespace DocumentMapper.Unicode

/-- First and last codes. -/
abbrev Ranges := List (Nat × Nat)

/-- Whether a code is in one of the ranges. -/
def inRanges (rs : Ranges) (n : Nat) : Bool :=
  rs.any fun r => r.1 ≤ n && n ≤ r.2

/-- The value of a lower-case hexadecimal digit. -/
def hexDigitValue (c : Char) : Nat :=
  if c.toNat < 58 then c.toNat - 48 else c.toNat - 87

/-- Reads words of hexadecimal codes. `first` holds the code before a hyphen. -/
def readRangesFrom : Option Nat → Nat → List Char → Ranges
  | first, code, [] => [(first.getD code, code)]
  | first, code, ' ' :: rest => (first.getD code, code) :: readRangesFrom none 0 rest
  | _, code, '-' :: rest => readRangesFrom (some code) 0 rest
  | first, code, c :: rest => readRangesFrom first (16 * code + hexDigitValue c) rest

/-- The ranges that a text lists. -/
def readRanges (text : String) : Ranges :=
  if text.isEmpty then [] else readRangesFrom none 0 text.toList

/-- What lies between sorted ranges, from code `next` on. -/
def gapsFrom (next : Nat) : Ranges → Ranges
  | [] => if next ≤ 0x10FFFF then [(next, 0x10FFFF)] else []
  | (a, b) :: rest => if next < a then (next, a - 1) :: gapsFrom (b + 1) rest
    else gapsFrom (b + 1) rest

/-- The characters outside sorted ranges. -/
def gaps (rs : Ranges) : Ranges :=
  gapsFrom 0 rs

end DocumentMapper.Unicode
