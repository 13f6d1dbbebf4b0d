import DocumentMapper.Filter.TextOperator
import DocumentMapper.Storage.Encoding

/-!
# Operands

How a field prepares a value that a filter or an update compares or writes. A list field takes a
list item by item where the whole value is meant, and otherwise leaves the operand to the field of
its items; a dict field takes a dict as it is stored. Numbers may be given as texts.
-/

namespace DocumentMapper

open Text

/-- The operand of a scalar field. -/
def Field.scalarOperand (f : Field) (s : Scalar) (v : Value) : Drawing Json :=
  match v with
  | .list _ | .dict _ => v.plain
  | .string t =>
    if s = .int then
      match signedWord? (trimBlanks t.toList) with
      | some n => return .ofInt64 n
      | none => f.refuse (.notInteger t)
    else if s = .float then
      match double? (trimBlanks t.toList) with
      | some x => x.toJson
      | none => f.refuse (.notNumber t)
    else v.encode f
  | _ => v.encode f

/-- The operand of a reference field: an id. -/
def Field.idOperand (f : Field) (v : Value) : Drawing Json :=
  match v with
  | .document doc | .linked doc => f.linkId doc.keyJson
  | _ => f.encodeId v

/-- The operand of a field of references to any type. -/
def Field.genericOperand (f : Field) (v : Value) : Drawing Json :=
  match v with
  | .document doc | .linked doc => do
    let (collection, id) ← f.linkParts doc.type doc.keyJson
    return Reference.pair collection id
  | _ => v.plain

/-- Whether an operator means the whole of a list. -/
def meansWhole (op : Option String) : Bool :=
  op == none || op == some "set" || op == some "unset"

mutual

/-- The operand that a field makes of a value; `op` is the operator, none for equality. -/
def Field.operand (op : Option String) : Field → Value → Drawing Json
  | ⟨name, storageName, isRequired, kind, dflt, validator⟩, v =>
    if v.isNull then return .null
    else kind.operand op ⟨name, storageName, isRequired, kind, dflt, validator⟩ v
termination_by structural f => f

/-- The operand that a field `f` of the kind makes of a value. -/
def Kind.operand (op : Option String) : Kind → Field → Value → Drawing Json
  | .list element, _, v =>
    match v with
    | .list items =>
      if meansWhole op then do return .array (← items.mapM fun item => element.operand op item)
      else element.operand op v
    | _ => element.operand op v
  | .dict element, f, v =>
    match v with
    | .dict _ => v.encode f
    | _ => element.operand op v
  | .scalar s, f, v =>
    match op, v with
    | some o, .string t =>
      if (s = .string ∨ s = .any) ∧ isTextOperator o then return textCondition o t
      else f.scalarOperand s v
    | _, _ => f.scalarOperand s v
  | .embedded _, _, v => v.plain
  | .reference _, f, v => f.idOperand v
  | .genericReference, f, v => f.genericOperand v
termination_by structural k => k

end

end DocumentMapper
