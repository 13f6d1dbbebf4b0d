import DocumentMapper.Pattern.Search
import DocumentMapper.Text.Blank
import DocumentMapper.Text.Numeral
import DocumentMapper.Unicode.Property

/-!
# Reading patterns

The notation of patterns: literal characters, `.`, the anchors `^` and `$`, bracketed classes with
ranges, nesting and set operators, escapes for classes and characters, groups with names and
flags, alternatives, and repetitions with an optional mark for laziness, which makes no
difference here. There are no references back to groups and no conditions on what follows or
precedes a match. A pattern whose written-out form is too large is refused.

`escape` writes a text so that a pattern reads it literally.
-/

namespace DocumentMapper.Pattern

open Text Unicode

/-- The settings that flags change. -/
structure Flags where
  anyCase : Bool := false
  multiLine : Bool := false
  dotAll : Bool := false
  swapGreed : Bool := false
  unicode : Bool := true
  crlf : Bool := false
  extended : Bool := false

/-- The characters with a meaning in patterns. -/
def isMeta (c : Char) : Bool :=
  "\\.+*?()|[]\x7b\x7d^$#&-~".toList.contains c

/-- A text as a pattern that matches exactly it. -/
def escape (text : String) : String :=
  String.ofList (text.toList.flatMap fun c => if isMeta c then ['\\', c] else [c])

/-- The rest of a line, without its end. -/
def dropLine (cs : List Char) : List Char :=
  cs.dropWhile (· != '\n')

/-- Skips white space and comments. Fuel bounds the number of comments. -/
def skipExtended : Nat → List Char → List Char
  | 0, cs => cs
  | fuel + 1, cs =>
    match cs.dropWhile isBlank with
    | '#' :: rest => skipExtended fuel (dropLine rest)
    | rest => rest

/-- What comes next: in extended patterns white space and comments are skipped. -/
def Flags.skip (f : Flags) (cs : List Char) : List Char :=
  if f.extended then skipExtended (cs.length + 1) cs else cs

/-- A set closed under case where the flags say so. -/
def Flags.close (f : Flags) (set : CharSet) : CharSet :=
  if f.anyCase then .anyCase (!f.unicode) set else set

/-- What an escape stands for. -/
inductive Escape where
  | literal (c : Char)
  | set (set : CharSet)
  | assertion (a : Assertion)

/-- The code that hexadecimal digits write. -/
def hexCode? (digits : List Char) : Option Char := do
  let value (c : Char) : Option Nat :=
    if c.isDigit then some (c.toNat - 48)
    else if 'a' ≤ c ∧ c ≤ 'f' then some (c.toNat - 87)
    else if 'A' ≤ c ∧ c ≤ 'F' then some (c.toNat - 55)
    else none
  let n ← digits.foldlM (fun n c => (value c).map (16 * n + ·)) 0
  if digits.isEmpty ∨ ¬n.isValidChar then none else some (Char.ofNat n)

/-- A character by its code: in braces or with a fixed number of digits. -/
def readHex (f : Flags) (width : Nat) (cs : List Char) : Option (Char × List Char) :=
  match f.skip cs with
  | '\x7b' :: rest => do
    let digits := (rest.takeWhile (· != '\x7d')).filter fun c => !(f.extended && isBlank c)
    match rest.dropWhile (· != '\x7d') with
    | _ :: rest => return (← hexCode? digits, rest)
    | [] => none
  | rest =>
    if rest.length < width then none else do return (← hexCode? (rest.take width), rest.drop width)

/-- The class of a property in braces or with a one-letter name. -/
def readProperty (f : Flags) (negated : Bool) (cs : List Char) : Option (CharSet × List Char) := do
  let (name, rest) ← (match f.skip cs with
    | '\x7b' :: rest =>
      match rest.dropWhile (· != '\x7d') with
      | _ :: after => some (rest.takeWhile (· != '\x7d'), after)
      | [] => none
    | '\\' :: _ => none
    | c :: rest => some ([c], rest)
    | [] => none : Option (List Char × List Char))
  let (named, notEqual) : Option Ranges × Bool :=
    match splitFirst name with
    | some (key, value, ne) => (valueNamed? (String.ofList key) (String.ofList value), ne)
    | none => (named? (String.ofList name), false)
  let set := f.close (.ranges (← named))
  return (if negated != notEqual then .compl set else set, rest)
where
  /-- A property and its value, around `!=`, a colon or an equals sign. -/
  splitFirst (name : List Char) : Option (List Char × List Char × Bool) :=
    let upTo (p : Char → Bool) := name.takeWhile fun c => !p c
    if name.contains '!' ∧ (name.dropWhile (· != '!')).take 2 = ['!', '='] then
      some (upTo (· == '!'), (name.dropWhile (· != '!')).drop 2, true)
    else if name.contains ':' then
      some (upTo (· == ':'), (name.dropWhile (· != ':')).drop 1, false)
    else if name.contains '=' then
      some (upTo (· == '='), (name.dropWhile (· != '=')).drop 1, false)
    else none

/-- A class with a letter of its own. Without Unicode it has ASCII members only, and then its
complement is no set of characters. -/
def letterClass? (f : Flags) (c : Char) : Option CharSet :=
  let pick (unicode ascii : Ranges) : CharSet := .ranges (if f.unicode then unicode else ascii)
  let digits := pick digitRanges [(48, 57)]
  let spaces := pick spaceRanges [(9, 13), (32, 32)]
  let words := pick wordRanges [(48, 57), (65, 90), (95, 95), (97, 122)]
  let outside (set : CharSet) := if f.unicode then some (.compl set) else none
  if c = 'd' then some digits
  else if c = 's' then some spaces
  else if c = 'w' then some words
  else if c = 'D' then outside digits
  else if c = 'S' then outside spaces
  else if c = 'W' then outside words
  else none

/-- The word boundaries with a name in braces. -/
def namedBoundary? (f : Flags) (name : List Char) : Option Assertion :=
  let ascii := !f.unicode
  if name = "start".toList then some (.wordStart ascii)
  else if name = "end".toList then some (.wordEnd ascii)
  else if name = "start-half".toList then some (.wordStartHalf ascii)
  else if name = "end-half".toList then some (.wordEndHalf ascii)
  else none

/-- Letters and the hyphen, of which names of boundaries are made. -/
def isBoundaryChar (c : Char) : Bool :=
  c.isAlpha || c == '-'

/-- The assertion of `\b`. A brace with a letter behind it begins the name of a boundary; any
other brace is left for a repetition. -/
def readBoundary (f : Flags) : List Char → Option (Assertion × List Char)
  | '\x7b' :: rest =>
    match f.skip rest with
    | [] => none
    | c :: more =>
      if isBoundaryChar c then
        let body := c :: more
        let name := (body.takeWhile (· != '\x7d')).filter fun c => !(f.extended && isBlank c)
        match body.dropWhile (· != '\x7d') with
        | _ :: after => (namedBoundary? f name).map (·, after)
        | [] => none
      else some (.wordBoundary !f.unicode, '\x7b' :: rest)
  | cs => some (.wordBoundary !f.unicode, cs)

/-- The character that a one-letter escape stands for. -/
def controlEscape? (c : Char) : Option Char :=
  if c = 'a' then some (Char.ofNat 7)
  else if c = 'f' then some (Char.ofNat 12)
  else if c = 't' then some '\t'
  else if c = 'n' then some '\n'
  else if c = 'r' then some '\r'
  else if c = 'v' then some (Char.ofNat 11)
  else none

/-- Whether a backslash may stand in front of a character that means itself. -/
def isEscapable (c : Char) : Bool :=
  isMeta c || (c.toNat < 128 && !c.isAlphanum && c != '<' && c != '>')

/-- What follows a backslash. -/
def readEscape (f : Flags) : List Char → Option (Escape × List Char)
  | [] => none
  | c :: rest =>
    if c = 'x' ∨ c = 'u' ∨ c = 'U' then do
      let (code, after) ← readHex f (if c = 'x' then 2 else if c = 'u' then 4 else 8) rest
      if !f.unicode && 128 ≤ code.toNat then none else return (.literal code, after)
    else if c = 'p' ∨ c = 'P' then
      if f.unicode then
        (readProperty f (c = 'P') rest).map fun (set, after) => (.set set, after)
      else none
    else if isEscapable c then some (.literal c, rest)
    else
      match letterClass? f c, controlEscape? c with
      | some set, _ => some (.set set, rest)
      | none, some d => some (.literal d, rest)
      | none, none =>
        if c = 'A' then some (.assertion .textStart, rest)
        else if c = 'z' then some (.assertion .textEnd, rest)
        else if c = 'b' then (readBoundary f rest).map fun (a, after) => (.assertion a, after)
        else if c = 'B' then some (.assertion (.notWordBoundary !f.unicode), rest)
        else if c = '<' then some (.assertion (.wordStart !f.unicode), rest)
        else if c = '>' then some (.assertion (.wordEnd !f.unicode), rest)
        else none

/-! ### Bracketed classes -/

/-- The named classes of ASCII. -/
def asciiClasses : List (String × Ranges) := [
  ("alnum", [(48, 57), (65, 90), (97, 122)]), ("alpha", [(65, 90), (97, 122)]),
  ("ascii", [(0, 127)]), ("blank", [(9, 9), (32, 32)]), ("cntrl", [(0, 31), (127, 127)]),
  ("digit", [(48, 57)]), ("graph", [(33, 126)]), ("lower", [(97, 122)]), ("print", [(32, 126)]),
  ("punct", [(33, 47), (58, 64), (91, 96), (123, 126)]), ("space", [(9, 13), (32, 32)]),
  ("upper", [(65, 90)]), ("word", [(48, 57), (65, 90), (95, 95), (97, 122)]),
  ("xdigit", [(48, 57), (65, 70), (97, 102)])]

/-- A named ASCII class behind its opening bracket, if the text has one there. -/
def readAsciiClass? (f : Flags) : List Char → Option (CharSet × List Char)
  | ':' :: rest => do
    let (negated, body) : Bool × List Char :=
      match rest with
      | '^' :: more => (true, more)
      | _ => (false, rest)
    let name := String.ofList (body.takeWhile (· != ':'))
    let rs ← asciiClasses.lookup name
    match body.dropWhile (· != ':') with
    | ':' :: ']' :: after =>
      let set : CharSet := f.close (.ranges rs)
      return (if negated then .compl set else set, after)
    | _ => none
  | _ => none

/-- One end of a range, or an item of its own. -/
def readClassItem (f : Flags) : List Char → Option (Escape × List Char)
  | [] => none
  | '\\' :: rest => readEscape f rest
  | c :: rest => if !f.unicode && 128 ≤ c.toNat then none else some (.literal c, rest)

/-- An item or a range of a class. A hyphen before a closing bracket or another hyphen begins no
range. -/
def readClassRange (f : Flags) (cs : List Char) : Option (CharSet × List Char) := do
  let (first, rest) ← readClassItem f cs
  let rest := f.skip rest
  let alone : Option (CharSet × List Char) :=
    match first with
    | .literal c => some (.single c, rest)
    | .set set => some (set, rest)
    | .assertion _ => none
  match rest with
  | [] => none
  | '-' :: more =>
    match f.skip more with
    | ']' :: _ | '-' :: _ => alone
    | [] => none
    | more =>
      let (last, rest) ← readClassItem f more
      match first, last with
      | .literal a, .literal b =>
        if a ≤ b then return (.ranges [(a.toNat, b.toNat)], rest) else none
      | _, _ => none
  | _ => alone

/-- An operator between two sets. -/
inductive SetOp where
  | inter
  | diff
  | symmDiff

/-- A set with the operator that awaits its right side, applied. -/
def applyPending (f : Flags) : Option (SetOp × CharSet) → CharSet → CharSet
  | none, right => right
  | some (op, left), right =>
    match op with
    | .inter => .inter (f.close left) (f.close right)
    | .diff => .diff (f.close left) (f.close right)
    | .symmDiff => .symmDiff (f.close left) (f.close right)

/-- Hyphens at the front of a class are literal. -/
def readLeadingHyphens (f : Flags) : Nat → CharSet → List Char → CharSet × List Char
  | 0, acc, cs => (acc, cs)
  | fuel + 1, acc, cs =>
    match cs with
    | '-' :: rest => readLeadingHyphens f fuel (.union acc (.single '-')) (f.skip rest)
    | _ => (acc, cs)

/-- The front of a class behind its opening bracket: negation, hyphens, a literal closing
bracket. -/
def openClass (f : Flags) (cs : List Char) : Bool × CharSet × List Char :=
  let (negated, cs) : Bool × List Char :=
    match f.skip cs with
    | '^' :: rest => (true, f.skip rest)
    | rest => (false, rest)
  match cs with
  | ']' :: rest => (negated, .single ']', f.skip rest)
  | '-' :: _ =>
    let (set, rest) := readLeadingHyphens f cs.length .empty cs
    (negated, set, rest)
  | _ => (negated, .empty, cs)

/-- Closes a class under case and complements it where it is negated. -/
def closeClass (f : Flags) (negated : Bool) (set : CharSet) : Option CharSet :=
  if negated then (if f.unicode then some (.compl (f.close set)) else none) else some (f.close set)

/-- The rest of a class up to its closing bracket: `acc` is the union read so far, `pending` what
stands before an operator. -/
def readClassBody (f : Flags) :
    Nat → Bool → Option (SetOp × CharSet) → CharSet → List Char → Option (CharSet × List Char)
  | 0, _, _, _, _ => none
  | fuel + 1, negated, pending, acc, cs =>
    match f.skip cs with
    | [] => none
    | '[' :: rest =>
      match readAsciiClass? f rest with
      | some (set, after) => readClassBody f fuel negated pending (.union acc set) after
      | none => do
        let (innerNegated, set, body) := openClass f rest
        let (inner, after) ← readClassBody f fuel innerNegated none set body
        readClassBody f fuel negated pending (.union acc inner) after
    | ']' :: rest => (closeClass f negated (applyPending f pending acc)).map (·, rest)
    | '&' :: '&' :: rest =>
      readClassBody f fuel negated (some (.inter, applyPending f pending acc)) .empty rest
    | '-' :: '-' :: rest =>
      readClassBody f fuel negated (some (.diff, applyPending f pending acc)) .empty rest
    | '~' :: '~' :: rest =>
      readClassBody f fuel negated (some (.symmDiff, applyPending f pending acc)) .empty rest
    | rest => do
      let (set, after) ← readClassRange f rest
      readClassBody f fuel negated pending (.union acc set) after

/-- A class behind its opening bracket. -/
def readClass (f : Flags) (cs : List Char) : Option (CharSet × List Char) :=
  let (negated, set, body) := openClass f cs
  readClassBody f (cs.length + 1) negated none set body

/-! ### Groups, flags and repetitions -/

/-- The flags with one of them set or cleared. -/
def Flags.change? (f : Flags) (value : Bool) (c : Char) : Option Flags :=
  if c = 'i' then some { f with anyCase := value }
  else if c = 'm' then some { f with multiLine := value }
  else if c = 's' then some { f with dotAll := value }
  else if c = 'U' then some { f with swapGreed := value }
  else if c = 'u' then some { f with unicode := value }
  else if c = 'R' then some { f with crlf := value }
  else if c = 'x' then some { f with extended := value }
  else none

/-- Applies flag letters; those after a hyphen are cleared. Repeated letters, a repeated hyphen and
a hyphen at the end are refused. -/
def applyFlags (f : Flags) (value : Bool) (seen : List Char) : List Char → Option Flags
  | [] => if seen.head? = some '-' then none else some f
  | c :: rest =>
    if seen.contains c then none
    else if c = '-' then applyFlags f false (c :: seen) rest
    else do applyFlags (← f.change? value c) value (c :: seen) rest

/-- Whether a character may stand in the name of a group. -/
def isNameChar (first : Bool) (c : Char) : Bool :=
  c == '_' || inRanges alphabeticRanges c.toNat
    || (!first && (c == '.' || c == '[' || c == ']'
      || inRanges (["Nd", "Nl", "No"].flatMap category) c.toNat))

/-- The name of a group up to its closing angle. -/
def readGroupName (cs : List Char) : Option (String × List Char) :=
  let name := cs.takeWhile (· != '>')
  match name, cs.dropWhile (· != '>') with
  | first :: others, _ :: rest =>
    if isNameChar true first && others.all (isNameChar false) then some (String.ofList name, rest)
    else none
  | _, _ => none

/-- A part of a sequence. Flags are a part that cannot be repeated. -/
structure Item where
  node : Node
  repeatable : Bool

/-- The sequence of some items, the last one first. -/
def sequence (items : List Item) : Node :=
  match items with
  | [] => .empty
  | last :: earlier => earlier.foldl (fun acc item => .seq item.node acc) last.node

/-- The alternatives of a group, the last one first. -/
def alternatives (done : List Node) (last : Node) : Node :=
  done.foldl (fun acc node => .alt node acc) last

/-- The items with the last one repeated. -/
def repeatLast (min : Nat) (max : Option Nat) : List Item → Option (List Item)
  | item :: earlier =>
    if item.repeatable then some (⟨.rep item.node min max, true⟩ :: earlier) else none
  | [] => none

/-- The text behind a mark of laziness, if it has one. -/
def dropLazy : List Char → List Char
  | '?' :: rest => rest
  | cs => cs

/-- The digits at the front and the text behind them. In extended patterns white space and comments
may stand between them. Fuel bounds their number. -/
def readDigits (f : Flags) : Nat → List Char → List Char × List Char
  | 0, cs => ([], cs)
  | _, [] => ([], [])
  | fuel + 1, c :: rest =>
    if c.isDigit then
      let (digits, after) := readDigits f fuel (f.skip rest)
      (c :: digits, after)
    else ([], c :: rest)

/-- A decimal number that fits 32 bits, with white space around it; `none` inside for no digits. -/
def readCount (f : Flags) (cs : List Char) : Option (Option Nat × List Char) :=
  let body := cs.dropWhile isBlank
  let (digits, after) := readDigits f body.length body
  let rest := after.dropWhile isBlank
  if digits.isEmpty then some (none, rest)
  else if ofDigits 0 digits < 4294967296 then some (some (ofDigits 0 digits), rest)
  else none

/-- The bounds of a repetition behind the opening brace. -/
def readBounds (f : Flags) (cs : List Char) : Option (Nat × Option Nat × List Char) := do
  let (first, rest) ← readCount f (f.skip cs)
  match rest with
  | ',' :: rest =>
    match f.skip rest with
    | '\x7d' :: after => return (← first, none, after)
    | rest =>
      let (last, rest) ← readCount f rest
      let min ← first
      let max ← last
      match rest with
      | '\x7d' :: after => if min ≤ max then return (min, some max, after) else none
      | _ => none
  | '\x7d' :: after => return (← first, some (← first), after)
  | _ => none

/-- What an unescaped character stands for. -/
def plainNode? (f : Flags) (c : Char) : Option Node :=
  if c = '.' then
    if !f.unicode then none
    else if f.dotAll then some (.char .full)
    else if f.crlf then some (.char (.compl (.union (.single '\r') (.single '\n'))))
    else some (.char (.compl (.single '\n')))
  else if c = '^' then some (.assertion (if f.multiLine then .lineStart f.crlf else .textStart))
  else if c = '$' then some (.assertion (if f.multiLine then .lineEnd f.crlf else .textEnd))
  else some (.char (f.close (.single c)))

/-- The node of an escape. -/
def Escape.node (f : Flags) : Escape → Node
  | literal c => .char (f.close (.single c))
  | set s => .char s
  | assertion a => .assertion a

/-- What stands behind an opening parenthesis. -/
inductive GroupFront where
  /-- A group with the flags for its inside and the names known then. -/
  | group (f : Flags) (names : List String) (rest : List Char)
  /-- Flags for the rest of the group around. -/
  | flags (f : Flags) (rest : List Char)

/-- The front of a group behind its opening parenthesis. -/
def readGroupFront (f : Flags) (names : List String) (cs : List Char) : Option GroupFront :=
  match f.skip cs with
  | '?' :: 'P' :: '<' :: rest => named rest
  | '?' :: '=' :: _ | '?' :: '!' :: _ | '?' :: '<' :: '=' :: _ | '?' :: '<' :: '!' :: _ => none
  | '?' :: '<' :: rest => named rest
  | '?' :: rest =>
    let letters := rest.takeWhile fun c => c != ':' && c != ')'
    match rest.dropWhile fun c => c != ':' && c != ')' with
    | ')' :: after =>
      if letters.isEmpty then none else (applyFlags f true [] letters).map (.flags · after)
    | _ :: after => (applyFlags f true [] letters).map (.group · names after)
    | [] => none
  | rest => some (.group f names rest)
where
  /-- A group with a name that no other group has. -/
  named (cs : List Char) : Option GroupFront := do
    let (name, rest) ← readGroupName cs
    if names.contains name then none else return .group f (name :: names) rest

/-- Where the reading of a group stands. -/
structure Progress where
  flags : Flags
  /-- The names of all groups so far. -/
  names : List String
  /-- The alternatives before the current one, the last one first. -/
  done : List Node
  /-- The items of the current alternative, the last one first. -/
  items : List Item

/-- The progress with one more repeatable item. -/
def Progress.push (p : Progress) (node : Node) : Progress :=
  { p with items := ⟨node, true⟩ :: p.items }

/-- The node of everything read so far. -/
def Progress.finish (p : Progress) : Node :=
  alternatives p.done (sequence p.items)

/-- The rest of a group, or of the whole pattern where `nested` is false. The fuel bounds the
number of items. -/
def readGroup (nested : Bool) :
    Nat → Progress → List Char → Option (Node × List String × List Char)
  | 0, _, _ => none
  | fuel + 1, p, cs =>
    match p.flags.skip cs with
    | [] => if nested then none else some (p.finish, p.names, [])
    | ')' :: rest => if nested then some (p.finish, p.names, rest) else none
    | '|' :: rest =>
      readGroup nested fuel { p with done := sequence p.items :: p.done, items := [] } rest
    | '(' :: rest => do
      match ← readGroupFront p.flags p.names rest with
      | .flags f after =>
        readGroup nested fuel { p with flags := f, items := ⟨.empty, false⟩ :: p.items } after
      | .group f names body =>
        let (node, names, after) ← readGroup true fuel ⟨f, names, [], []⟩ body
        readGroup nested fuel ({ p with names }.push node) after
    | '[' :: rest => do
      let (set, after) ← readClass p.flags rest
      readGroup nested fuel (p.push (.char set)) after
    | '?' :: rest => do
      readGroup nested fuel { p with items := ← repeatLast 0 (some 1) p.items } (dropLazy rest)
    | '*' :: rest => do
      readGroup nested fuel { p with items := ← repeatLast 0 none p.items } (dropLazy rest)
    | '+' :: rest => do
      readGroup nested fuel { p with items := ← repeatLast 1 none p.items } (dropLazy rest)
    | '\x7b' :: rest => do
      let (min, max, after) ← readBounds p.flags rest
      let items ← repeatLast min max p.items
      readGroup nested fuel { p with items } (dropLazy (p.flags.skip after))
    | '\\' :: rest => do
      let (e, after) ← readEscape p.flags rest
      readGroup nested fuel (p.push (e.node p.flags)) after
    | c :: rest => do
      readGroup nested fuel (p.push (← plainNode? p.flags c)) rest

/-- The largest written-out form of a pattern. The limit is on the memory of a compiled pattern; the
weight only approximates it, so near the limit the two can differ. -/
def weightLimit : Nat := 262144

/-- The pattern that a text denotes, if it is well formed and not too large. -/
def read? (anyCase : Bool) (text : String) : Option Node := do
  let cs := text.toList
  let (node, _, _) ← readGroup false (cs.length + 1) ⟨{ anyCase }, [], [], []⟩ cs
  if node.weight ≤ weightLimit then some node else none

end DocumentMapper.Pattern
