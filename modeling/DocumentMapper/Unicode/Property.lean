import DocumentMapper.Unicode.Category
import DocumentMapper.Unicode.Ranges
import DocumentMapper.Unicode.Script

/-!
# Character properties

The classes of characters that a pattern can name, as lists of ranges. Names are compared without
regard to case, blanks, hyphens and underscores, and a leading `is` is ignored.

* `named?` finds a general category, a group of categories, a script or a binary property;
* `wordRanges`, `digitRanges` and `spaceRanges` are the three classes with a letter of their own.
-/

namespace DocumentMapper.Unicode

/-- The ranges of a category, by its two-letter name. -/
def category (name : String) : Ranges :=
  readRanges ((categories.lookup name).getD "")

/-- The groups of categories. -/
def categoryGroups : List (String × List String) := [
  ("L", ["Lu", "Ll", "Lt", "Lm", "Lo"]),
  ("LC", ["Lu", "Ll", "Lt"]),
  ("M", ["Mn", "Mc", "Me"]),
  ("N", ["Nd", "Nl", "No"]),
  ("P", ["Pc", "Pd", "Ps", "Pe", "Pi", "Pf", "Po"]),
  ("S", ["Sm", "Sc", "Sk", "So"]),
  ("Z", ["Zs", "Zl", "Zp"]),
  ("C", ["Cc", "Cf", "Co", "Cn"])]

/-- The long names of categories and of their groups. -/
def categoryNames : List (String × String) := [
  ("letter", "L"), ("casedletter", "LC"), ("uppercaseletter", "Lu"), ("lowercaseletter", "Ll"),
  ("titlecaseletter", "Lt"), ("modifierletter", "Lm"), ("otherletter", "Lo"), ("mark", "M"),
  ("combiningmark", "M"), ("nonspacingmark", "Mn"), ("spacingmark", "Mc"), ("enclosingmark", "Me"),
  ("number", "N"), ("decimalnumber", "Nd"), ("digit", "Nd"), ("letternumber", "Nl"),
  ("othernumber", "No"), ("punctuation", "P"), ("punct", "P"), ("connectorpunctuation", "Pc"),
  ("dashpunctuation", "Pd"), ("openpunctuation", "Ps"), ("closepunctuation", "Pe"),
  ("initialpunctuation", "Pi"), ("finalpunctuation", "Pf"), ("otherpunctuation", "Po"),
  ("symbol", "S"), ("mathsymbol", "Sm"), ("currencysymbol", "Sc"), ("modifiersymbol", "Sk"),
  ("othersymbol", "So"), ("separator", "Z"), ("spaceseparator", "Zs"), ("lineseparator", "Zl"),
  ("paragraphseparator", "Zp"), ("other", "C"), ("control", "Cc"), ("cntrl", "Cc"),
  ("format", "Cf"), ("surrogate", "Cs"), ("privateuse", "Co"), ("unassigned", "Cn")]

/-- A name with only what counts in comparisons. -/
def plainName (name : String) : String :=
  let cs := (name.toList.filter fun c => c != ' ' && c != '-' && c != '_').map Char.toLower
  match cs with
  | 'i' :: 's' :: rest => if rest = ['c'] ∨ rest = [] then String.ofList cs else String.ofList rest
  | _ => String.ofList cs

/-- The ranges of a category or a group of categories. -/
def categoryNamed? (name : String) : Option Ranges :=
  let short := (categoryNames.lookup name).getD name
  let find {α : Type} (table : List (String × α)) :=
    (table.find? fun e => plainName e.1 == plainName short).map Prod.snd
  match find categoryGroups with
  | some parts => some (parts.flatMap category)
  | none =>
    if plainName short = "cs" then some []
    else (find categories).map readRanges

/-- The ranges of a script. -/
def scriptNamed? (name : String) : Option Ranges :=
  let long := ((scriptNames.find? fun e => plainName e.1 == name).map Prod.snd).getD name
  (scripts.find? fun e => plainName e.1 == plainName long).map fun e => readRanges e.2

/-- The alphabetic characters that are neither letters nor letter numbers. -/
def otherAlphabetic : Ranges := readRanges
  ("345 5b0-5bd 5bf 5c1-5c2 5c4-5c5 5c7 610-61a 64b-657 659-65f 670 6d6-6dc 6e1-6e4 " ++
    "6e7-6e8 6ed 711 730-73f 7a6-7b0 816-817 81b-823 825-827 829-82c 8d4-8df 8e3-8e9 " ++
    "8f0-903 93a-93b 93e-94c 94e-94f 955-957 962-963 981-983 9be-9c4 9c7-9c8 9cb-9cc 9d7 " ++
    "9e2-9e3 a01-a03 a3e-a42 a47-a48 a4b-a4c a51 a70-a71 a75 a81-a83 abe-ac5 ac7-ac9 " ++
    "acb-acc ae2-ae3 afa-afc b01-b03 b3e-b44 b47-b48 b4b-b4c b56-b57 b62-b63 b82 bbe-bc2 " ++
    "bc6-bc8 bca-bcc bd7 c00-c04 c3e-c44 c46-c48 c4a-c4c c55-c56 c62-c63 c81-c83 cbe-cc4 " ++
    "cc6-cc8 cca-ccc cd5-cd6 ce2-ce3 cf3 d00-d03 d3e-d44 d46-d48 d4a-d4c d57 d62-d63 " ++
    "d81-d83 dcf-dd4 dd6 dd8-ddf df2-df3 e31 e34-e3a e4d eb1 eb4-eb9 ebb-ebc ecd f71-f83 " ++
    "f8d-f97 f99-fbc 102b-1036 1038 103b-103e 1056-1059 105e-1060 1062-1064 1067-106d " ++
    "1071-1074 1082-108d 108f 109a-109d 1712-1713 1732-1733 1752-1753 1772-1773 17b6-17c8 " ++
    "1885-1886 18a9 1920-192b 1930-1938 1a17-1a1b 1a55-1a5e 1a61-1a74 1abf-1ac0 1acc-1ace " ++
    "1b00-1b04 1b35-1b43 1b80-1b82 1ba1-1ba9 1bac-1bad 1be7-1bf1 1c24-1c36 1de7-1df4 " ++
    "24b6-24e9 2de0-2dff a674-a67b a69e-a69f a802 a80b a823-a827 a880-a881 a8b4-a8c3 a8c5 " ++
    "a8ff a926-a92a a947-a952 a980-a983 a9b4-a9bf a9e5 aa29-aa36 aa43 aa4c-aa4d aa7b-aa7d " ++
    "aab0 aab2-aab4 aab7-aab8 aabe aaeb-aaef aaf5 abe3-abea fb1e 10376-1037a 10a01-10a03 " ++
    "10a05-10a06 10a0c-10a0f 10d24-10d27 10eab-10eac 11000-11002 11038-11045 11073-11074 " ++
    "11080-11082 110b0-110b8 110c2 11100-11102 11127-11132 11145-11146 11180-11182 " ++
    "111b3-111bf 111ce-111cf 1122c-11234 11237 1123e 11241 112df-112e8 11300-11303 " ++
    "1133e-11344 11347-11348 1134b-1134c 11357 11362-11363 11435-11441 11443-11445 " ++
    "114b0-114c1 115af-115b5 115b8-115be 115dc-115dd 11630-1163e 11640 116ab-116b5 " ++
    "1171d-1172a 1182c-11838 11930-11935 11937-11938 1193b-1193c 11940 11942 119d1-119d7 " ++
    "119da-119df 119e4 11a01-11a0a 11a35-11a39 11a3b-11a3e 11a51-11a5b 11a8a-11a97 " ++
    "11c2f-11c36 11c38-11c3e 11c92-11ca7 11ca9-11cb6 11d31-11d36 11d3a 11d3c-11d3d " ++
    "11d3f-11d41 11d43 11d47 11d8a-11d8e 11d90-11d91 11d93-11d96 11ef3-11ef6 11f00-11f01 " ++
    "11f03 11f34-11f3a 11f3e-11f40 16f4f 16f51-16f87 16f8f-16f92 16ff0-16ff1 1bc9e " ++
    "1e000-1e006 1e008-1e018 1e01b-1e021 1e023-1e024 1e026-1e02a 1e08f 1e947 1f130-1f149 " ++
    "1f150-1f169 1f170-1f189")

/-- The alphabetic characters. -/
def alphabeticRanges : Ranges :=
  ["Lu", "Ll", "Lt", "Lm", "Lo", "Nl"].flatMap category ++ otherAlphabetic

/-- The uppercase characters. -/
def uppercaseRanges : Ranges :=
  category "Lu" ++ readRanges "2160-216f 24b6-24cf 1f130-1f149 1f150-1f169 1f170-1f189"

/-- The lowercase characters. -/
def lowercaseRanges : Ranges :=
  category "Ll" ++ readRanges
    ("aa ba 2b0-2b8 2c0-2c1 2e0-2e4 345 37a 10fc 1d2c-1d6a 1d78 1d9b-1dbf 2071 207f " ++
      "2090-209c 2170-217f 24d0-24e9 2c7c-2c7d a69c-a69d a770 a7f2-a7f4 a7f8-a7f9 ab5c-ab5f " ++
      "ab69 10780 10783-10785 10787-107b0 107b2-107ba 1e030-1e06d")

/-- White space. -/
def spaceRanges : Ranges :=
  readRanges "9-d 20 85 a0 1680 2000-200a 2028-2029 202f 205f 3000"

/-- Decimal digits. -/
def digitRanges : Ranges :=
  category "Nd"

/-- The characters of words: alphabetic ones, marks, digits, connectors and the two joiners. -/
def wordRanges : Ranges :=
  alphabeticRanges ++ ["Mn", "Mc", "Me", "Nd", "Pc"].flatMap category ++ [(0x200C, 0x200D)]

/-- The ranges of a binary property. -/
def binaryNamed? (name : String) : Option Ranges :=
  if name = "alphabetic" ∨ name = "alpha" then some alphabeticRanges
  else if name = "uppercase" ∨ name = "upper" then some uppercaseRanges
  else if name = "lowercase" ∨ name = "lower" then some lowercaseRanges
  else if name = "whitespace" ∨ name = "wspace" ∨ name = "space" then some spaceRanges
  else none

/-- The ranges that a name alone stands for. -/
def named? (name : String) : Option Ranges :=
  let plain := plainName name
  if plain = "any" then some [(0, 0x10FFFF)]
  else if plain = "assigned" then some (gaps (category "Cn"))
  else if plain = "ascii" then some [(0, 0x7F)]
  else ((binaryNamed? plain).or (categoryNamed? plain)).or (scriptNamed? plain)

/-- The ranges of a property with a value: a general category or a script. -/
def valueNamed? (property value : String) : Option Ranges :=
  let key := plainName property
  let plain := plainName value
  if key = "gc" ∨ key = "generalcategory" then
    if plain = "any" ∨ plain = "assigned" ∨ plain = "ascii" then named? value
    else categoryNamed? plain
  else if key = "sc" ∨ key = "script" then scriptNamed? plain
  else none

/-- Whether a character belongs to words. -/
def isWordChar (c : Char) : Bool :=
  if c.toNat < 128 then c.isAlphanum || c == '_' else inRanges wordRanges c.toNat

end DocumentMapper.Unicode
