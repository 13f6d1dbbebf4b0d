import DocumentMapper.Value.Basic

/-!
# Equality of values

Values of different kinds differ, also a whole number and a binary64 number of the same value.
Binary64 numbers are compared by value, so that the undefined one differs from itself. Two
documents are equal when they have the same class and equal values; what changed and what is
stored makes no difference.
-/

namespace DocumentMapper

/-- Whether two references have the same target and equal ids. -/
def Reference.equal (a b : Reference) : Bool :=
  decide (a.target = b.target) && a.id.equal b.id

mutual

/-- Equality of values. -/
def Value.equal : Value → Value → Bool
  | .null, .null => true
  | .bool a, .bool b => a == b
  | .int a, .int b => a == b
  | .float a, .float b => a.equal b
  | .string a, .string b => a == b
  | .datetime a, .datetime b => decide (a = b)
  | .list a, .list b => Value.equalItems a b
  | .dict a, .dict b => Value.equalEntries a b
  | .document a, .document b => Document.equal a b
  | .reference a, .reference b => a.equal b
  | .linked a, .linked b => Document.equal a b
  | _, _ => false
termination_by structural a => a

/-- Equality item by item. -/
def Value.equalItems : List Value → List Value → Bool
  | [], [] => true
  | a :: as, b :: bs => Value.equal a b && Value.equalItems as bs
  | _, _ => false
termination_by structural as => as

/-- Equality entry by entry. -/
def Value.equalEntries : List (String × Value) → List (String × Value) → Bool
  | [], [] => true
  | (k, a) :: as, (l, b) :: bs => k == l && Value.equal a b && Value.equalEntries as bs
  | _, _ => false
termination_by structural as => as

/-- Equality of documents. -/
def Document.equal : Document → Document → Bool
  | ⟨type, values, _, _⟩, other =>
    type.className == other.type.className && Value.equalEntries values other.values
termination_by structural d => d

end

end DocumentMapper
