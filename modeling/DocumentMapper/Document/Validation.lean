import DocumentMapper.Storage.Encoding

/-!
# Validating documents

A document is valid when every declared field accepts its value: required fields have one, and
validators have no objection to a value or to the items of a list or dict. Embedded documents are
validated too. The primary key is not, because the store may yet assign it.

Each value is turned into its check, a function of the field that describes it; the type then picks
the checks in the order of its fields.
-/

namespace DocumentMapper

/-- Validates a value for a field. -/
abbrev Check := Field → Except Error Unit

/-- The failure of a required field that has no value. -/
def Field.requirement (f : Field) : Except Error Unit :=
  if f.isRequired then throw (.validation f.name .required) else return ()

/-- The failure of a field whose validator objects. -/
def Field.approve (f : Field) (v : Value) : Except Error Unit :=
  match f.validator.bind (·.objection? v) with
  | some cause => throw (.validation f.name cause)
  | none => return ()

/-- Runs the checks of a document in the order of the declared fields. -/
def checkFields (primaryKey : Option String) (checks : List (String × Check)) :
    List Field → Except Error Unit
  | [] => return ()
  | f :: fs => do
    if primaryKey == some f.name then checkFields primaryKey checks fs
    else
      match Entries.get? checks f.name with
      | some check => check f
      | none => f.requirement
      checkFields primaryKey checks fs

mutual

/-- Validates a value for a field. -/
def Value.validate : Value → Field → Except Error Unit
  | .null, f => f.requirement
  | .list items, f => do
    f.approve (.list items)
    match f.kind with
    | .list element => validateItems items element
    | _ => return ()
  | .dict entries, f => do
    f.approve (.dict entries)
    match f.kind with
    | .dict element => validateEntries entries element
    | _ => return ()
  | .document doc, f => do
    f.approve (.document doc)
    match f.kind with
    | .embedded _ => doc.validate
    | _ => return ()
  | v, f => f.approve v
termination_by structural v => v

/-- Validates the items of a list that are not null. -/
def validateItems : List Value → Field → Except Error Unit
  | [], _ => return ()
  | v :: vs, element => do
    if v.isNull then validateItems vs element
    else
      v.validate element
      validateItems vs element
termination_by structural vs => vs

/-- Validates the values of a dict that are not null. -/
def validateEntries : List (String × Value) → Field → Except Error Unit
  | [], _ => return ()
  | (_, v) :: rest, element => do
    if v.isNull then validateEntries rest element
    else
      v.validate element
      validateEntries rest element
termination_by structural es => es

/-- The checks of the attributes of a document. -/
def checksOf : List (String × Value) → List (String × Check)
  | [] => []
  | (k, v) :: rest => (k, fun f => v.validate f) :: checksOf rest
termination_by structural es => es

/-- Validates every declared field of a document but the primary key. -/
def Document.validate : Document → Except Error Unit
  | ⟨type, values, _, _⟩ => checkFields type.primaryKey (checksOf values) type.fields
termination_by structural d => d

end

end DocumentMapper
