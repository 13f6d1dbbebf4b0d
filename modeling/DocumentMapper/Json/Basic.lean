import DocumentMapper.Entries
import DocumentMapper.Number.Double
import DocumentMapper.Number.Whole

/-!
# Stored values

`Json` is the form in which documents, filters and updates are stored and exchanged. Objects keep
the order of their entries, and whole numbers are told apart from binary64 numbers. Equality
ignores the order of entries, and `1` differs from `1.0`.

`Json.compare?` is the order that filters and sorting use: numbers by value whatever their form,
texts by code point, `false` before `true`; values of different kinds are not comparable.
-/

namespace DocumentMapper

open Number

/-- A stored value. -/
inductive Json where
  | null
  | bool (b : Bool)
  | whole (n : Whole)
  | float (x : Binary64)
  | string (s : String)
  | array (items : List Json)
  | object (entries : List (String × Json))

/-- The entries of a stored document. -/
abbrev Object := Entries Json

namespace Json

instance : Inhabited Json := ⟨.null⟩

/-- Whether the value is null. -/
def isNull : Json → Bool
  | null => true
  | _ => false

/-- The entries of an object. -/
def asObject? : Json → Option Object
  | object es => some es
  | _ => none

/-- The items of an array. -/
def asArray? : Json → Option (List Json)
  | array items => some items
  | _ => none

/-- The text of a string. -/
def asString? : Json → Option String
  | string s => some s
  | _ => none

/-- The truth value of a boolean. -/
def asBool? : Json → Option Bool
  | bool b => some b
  | _ => none

/-- The signed word that a whole number is. -/
def asInt64? : Json → Option Int64
  | whole n => n.toInt64?
  | _ => none

/-- The unsigned word that a whole number is. -/
def asNat? : Json → Option Nat
  | whole n => n.toNat?
  | _ => none

/-- The binary64 value nearest to a number. -/
def asDouble? : Json → Option Double
  | whole n => some (Double.ofInt n.val)
  | float x => some (.finite x)
  | _ => none

/-- A signed word. -/
def ofInt64 (n : Int64) : Json :=
  .whole (.ofInt64 n)

/-- A small count. Counts beyond the unsigned 64-bit range do not occur; they would be null. -/
def ofNat (n : Nat) : Json :=
  match Whole.ofInt? n with
  | some w => .whole w
  | none => .null

mutual

/-- Equality of stored values. Entries of objects may stand in any order. -/
def equal : Json → Json → Bool
  | null, null => true
  | bool a, bool b => a == b
  | whole a, whole b => decide (a = b)
  | float a, float b => a.equal b
  | string a, string b => a == b
  | array a, array b => equalItems a b
  | object a, object b => a.length == b.length && entriesIn a b
  | _, _ => false
termination_by structural a => a

/-- Equality item by item. -/
def equalItems : List Json → List Json → Bool
  | [], [] => true
  | a :: as, b :: bs => equal a b && equalItems as bs
  | _, _ => false
termination_by structural as => as

/-- Whether every entry has an equal one under its key in `b`. -/
def entriesIn : List (String × Json) → Object → Bool
  | [], _ => true
  | (k, v) :: rest, b =>
    (match b.get? k with
      | some w => equal v w
      | none => false) && entriesIn rest b
termination_by structural a => a

end

/-- Whether an equal value is among `items`. -/
def isIn (items : List Json) (v : Json) : Bool :=
  items.any fun item => item.equal v

/-- Order of two values, where they are comparable. Two numbers are compared exactly when both
are signed words, and as binary64 values otherwise. -/
def compare? : Json → Json → Option Ordering
  | null, null => some .eq
  | string a, string b => some (Ord.compare a b)
  | bool a, bool b => some (Ord.compare a b)
  | a, b =>
    match a.asInt64?, b.asInt64? with
    | some x, some y => some (Ord.compare x y)
    | _, _ =>
      match a.asDouble?, b.asDouble? with
      | some x, some y => x.compare? y
      | _, _ => none

end Json

/-- Equality of stored documents, in any order of entries. -/
def Object.equal (a b : Object) : Bool :=
  (Json.object a).equal (.object b)

end DocumentMapper
