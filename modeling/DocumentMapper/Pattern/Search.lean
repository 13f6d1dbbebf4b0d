import DocumentMapper.Pattern.CharSet

/-!
# Searching with patterns

A pattern relates places of a text: `Node.Spans` says from where to where it matches. Only whether
it matches anywhere is asked, so greediness and groups play no part.

`Node.advance` works on marks, one Boolean for each of the `n + 1` places of a text of `n`
characters: it maps the places where a match may begin to those where it may end. A repetition
without bound adds ends until every place had its turn. The effort is polynomial for every pattern
and text.
-/

namespace DocumentMapper.Pattern

open Unicode

/-- A condition on the characters beside a place. -/
inductive Assertion where
  | textStart
  | textEnd
  | lineStart (crlf : Bool)
  | lineEnd (crlf : Bool)
  | wordBoundary (ascii : Bool)
  | notWordBoundary (ascii : Bool)
  | wordStart (ascii : Bool)
  | wordEnd (ascii : Bool)
  | wordStartHalf (ascii : Bool)
  | wordEndHalf (ascii : Bool)
deriving DecidableEq

/-- Whether a neighbour exists and belongs to a word. -/
def isWordSide (ascii : Bool) : Option Char → Bool
  | none => false
  | some c => if ascii then c.isAlphanum || c == '_' else isWordChar c

/-- Whether an assertion holds between two neighbours. -/
def Assertion.holds : Assertion → Option Char → Option Char → Bool
  | textStart, before, _ => before.isNone
  | textEnd, _, after => after.isNone
  | lineStart false, before, _ => before.isNone || before == some '\n'
  | lineStart true, before, after =>
    before.isNone || before == some '\n' || (before == some '\r' && after != some '\n')
  | lineEnd false, _, after => after.isNone || after == some '\n'
  | lineEnd true, before, after =>
    after.isNone || after == some '\r' || (after == some '\n' && before != some '\r')
  | wordBoundary a, before, after => isWordSide a before != isWordSide a after
  | notWordBoundary a, before, after => isWordSide a before == isWordSide a after
  | wordStart a, before, after => !isWordSide a before && isWordSide a after
  | wordEnd a, before, after => isWordSide a before && !isWordSide a after
  | wordStartHalf a, before, _ => !isWordSide a before
  | wordEndHalf a, _, after => !isWordSide a after

/-- A pattern. -/
inductive Node where
  | empty
  | char (set : CharSet)
  | assertion (a : Assertion)
  | seq (a b : Node)
  | alt (a b : Node)
  | rep (a : Node) (min : Nat) (max : Option Nat)

/-- One Boolean per place of a text. -/
abbrev Marks := List Bool

/-- A text with the neighbours of each of its places. -/
structure Subject where
  chars : List Char
  sides : List (Option Char × Option Char)

/-- The subject of a text. -/
def Subject.ofChars (cs : List Char) : Subject where
  chars := cs
  sides := (none :: cs.map some).zip (cs.map some ++ [none])

/-- The places marked in either. -/
def Marks.or (a b : Marks) : Marks :=
  List.zipWith (· || ·) a b

/-- Applies `f` the given number of times. -/
def iterate {α : Type} (f : α → α) : Nat → α → α
  | 0, x => x
  | n + 1, x => iterate f n (f x)

/-- The places where a match can end that begins at a marked place. -/
def Node.advance (s : Subject) : Node → Marks → Marks
  | empty, m => m
  | char set, m => false :: List.zipWith (fun marked c => marked && set.contains c) m s.chars
  | assertion a, m =>
    List.zipWith (fun marked side => marked && a.holds side.1 side.2) m s.sides
  | seq a b, m => b.advance s (a.advance s m)
  | alt a b, m => (a.advance s m).or (b.advance s m)
  | rep a min max, m =>
    let more (x : Marks) : Marks := x.or (a.advance s x)
    let start := iterate (a.advance s) min m
    match max with
    | some k => iterate more (k - min) start
    | none => iterate more (s.chars.length + 1) start

/-- Whether the pattern matches somewhere in a text. -/
def Node.search (p : Node) (text : String) : Bool :=
  let s := Subject.ofChars text.toList
  (p.advance s (List.replicate (s.chars.length + 1) true)).any id

/-- The pattern matches the text between two places. -/
inductive Node.Spans (s : Subject) : Node → Nat → Nat → Prop
  | empty (i : Nat) : Spans s .empty i i
  | char {set : CharSet} {i : Nat} {c : Char} :
      s.chars[i]? = some c → set.contains c = true → Spans s (.char set) i (i + 1)
  | assertion {a : Assertion} {i : Nat} {side : Option Char × Option Char} :
      s.sides[i]? = some side → a.holds side.1 side.2 = true → Spans s (.assertion a) i i
  | seq {a b : Node} {i j k : Nat} : Spans s a i j → Spans s b j k → Spans s (.seq a b) i k
  | altLeft {a b : Node} {i j : Nat} : Spans s a i j → Spans s (.alt a b) i j
  | altRight {a b : Node} {i j : Nat} : Spans s b i j → Spans s (.alt a b) i j
  | repDone {a : Node} {max : Option Nat} (i : Nat) : Spans s (.rep a 0 max) i i
  | repMin {a : Node} {min i j k : Nat} {max : Option Nat} :
      Spans s a i j → Spans s (.rep a min (max.map (· - 1))) j k →
      Spans s (.rep a (min + 1) max) i k
  | repMore {a : Node} {i j k : Nat} {max : Option Nat} :
      max ≠ some 0 → Spans s a i j → Spans s (.rep a 0 (max.map (· - 1))) j k →
      Spans s (.rep a 0 max) i k

/-- How many character tests a pattern has once its repetitions are written out, a class counting
its ranges. -/
def Node.weight : Node → Nat
  | empty | assertion _ => 1
  | char set => set.weight
  | seq a b | alt a b => a.weight + b.weight
  | rep a min max => a.weight * (Nat.max 1 (max.getD min))

end DocumentMapper.Pattern
