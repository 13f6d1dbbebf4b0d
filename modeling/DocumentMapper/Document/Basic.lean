import DocumentMapper.Error
import DocumentMapper.Value.Equality

/-!
# Documents

How the attributes of a document are read and assigned. An assignment marks the attribute as
changed unless it already has an equal value. Assigning the primary key directly and filling a new
document mark nothing.

A save takes over the stored form as the state of reference and forgets what changed, in embedded
documents too.
-/

namespace DocumentMapper

namespace Document

/-- The attribute that a name stands for, if the type accepts it. -/
def attributeName (d : Document) (name : String) : Except PathError String :=
  let name := d.type.attributeOf name
  if (d.type.field? name).isSome || d.type.isDynamic then return name
  else throw (.noAttribute name d.type.name)

/-- The document with a value under an attribute. -/
def put (d : Document) (key : String) (v : Value) : Document :=
  { d with values := Entries.insertSorted d.values key v }

/-- The document with a path marked as changed. -/
def mark (d : Document) (path : String) : Document :=
  { d with dirty := d.dirty.mark path }

/-- The document with some values, none of them marked. -/
def fill (d : Document) : List (String × Value) → Except PathError Document
  | [] => return d
  | (name, v) :: rest => do
    let key ← d.attributeName name
    (d.put key v).fill rest

/-- A new document with some values. -/
def withValues (t : DocumentType) (values : List (String × Value)) : Except PathError Document :=
  (new t).fill values

/-- Assigns an attribute. -/
def set (d : Document) (name : String) (v : Value) : Except PathError Document := do
  let key ← d.attributeName name
  if (Entries.get? d.values key).any fun current => current.equal v then return d
  else return (d.mark key).put key v

/-- Assigns null to an attribute. -/
def unset (d : Document) (name : String) : Except PathError Document :=
  d.set name .null

/-- Assigns the primary key. -/
def setKey (d : Document) (v : Value) : Except UsageError Document :=
  match d.type.primaryKey with
  | some key => return d.put key v
  | none => throw (.noKey d.type.name)

end Document

/-! ### Forgetting changes -/

mutual

/-- The value without marks in its embedded documents. -/
def Value.unmarked : Value → Value
  | .document doc => .document doc.unmarked
  | .list items => .list (unmarkedItems items)
  | .dict entries => .dict (unmarkedEntries entries)
  | v => v
termination_by structural v => v

/-- Some values without marks. -/
def unmarkedItems : List Value → List Value
  | [] => []
  | v :: vs => v.unmarked :: unmarkedItems vs
termination_by structural vs => vs

/-- Some entries without marks. -/
def unmarkedEntries : List (String × Value) → List (String × Value)
  | [] => []
  | (k, v) :: rest => (k, v.unmarked) :: unmarkedEntries rest
termination_by structural es => es

/-- The document without marks, in embedded documents too. -/
def Document.unmarked : Document → Document
  | ⟨type, values, _, raw⟩ => ⟨type, unmarkedEntries values, .empty, raw⟩
termination_by structural d => d

end

/-- The document after a save as the given stored form. -/
def Document.persisted (d : Document) (raw : Object) : Document :=
  { d.unmarked with raw := some raw }

end DocumentMapper
