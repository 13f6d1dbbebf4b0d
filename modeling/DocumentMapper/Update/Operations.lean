import DocumentMapper.Filter.Conditions

/-!
# Keyword operations

An operation is a keyword and a value. The keyword begins with an update operator and goes on with
a path: `set__name`, `push__tags__0`, `pull__comments__author`. `compileUpdate` renders operations
as an update document; operations of one operator share its body, and on the same path the later
one counts.

* `dec` adds the negated value.
* `pull` and `pull_all` below a list are written as a condition on the items of the last list.
* `push` to a position inserts there.
-/

namespace DocumentMapper

open Text

/-- The operators that begin the keyword of an operation. -/
def updateOperators : List String :=
  ["set", "unset", "inc", "dec", "mul", "pop", "push", "push_all", "pull", "pull_all", "add_to_set",
    "set_on_insert", "min", "max", "rename"]

/-- The name of an operator in update documents. -/
def nativeOperator (op : String) : String :=
  if op = "dec" then "inc"
  else if op = "push_all" then "pushAll"
  else if op = "pull_all" then "pullAll"
  else if op = "add_to_set" then "addToSet"
  else if op = "set_on_insert" then "setOnInsert"
  else op

/-- The operators that write each item of a list for itself. -/
def isItemwise (op : String) : Bool :=
  ["push", "pushAll", "pullAll", "addToSet", "setOnInsert"].contains op

/-- The value that an operation writes or compares. `matcher` is a comparison at the end of the
path. -/
def Field.updateOperand (f : Field) (op : String) (matcher : Option String) (v : Value) :
    Drawing Json :=
  let isGeo :=
    match f.kind with
    | .scalar s => s.isGeo
    | _ => false
  let each (items : List Value) : Drawing Json := do
    return .array (← items.mapM fun item => f.operand (some op) item)
  if op = "unset" then return Json.ofNat 1
  else if isGeo && (op == "set" || op == "setOnInsert") then v.encode f
  else if op = "pull" then
    match v, matcher with
    | .list items, some m =>
      if ["in", "nin", "all"].contains m then each items else f.operand (some op) v
    | .dict _, some _ => v.plain
    | _, _ => f.operand (some op) v
  else if op = "set" ∨ op = "inc" then f.operand (some op) v
  else if isItemwise op then
    match v with
    | .list items => each items
    | _ =>
      if op = "pushAll" ∨ op = "pullAll" then refuseQuery (.updateList op v.typeName)
      else f.operand (some op) v
  else v.plain

/-- An operand inside objects with one entry each. -/
def nest (segments : List String) (operand : Json) : Json :=
  segments.foldr Json.single operand

/-- The place of the last list among the elements. -/
def lastList? (elements : List PathElement) : Option Nat :=
  let isList (e : PathElement) : Bool :=
    match e.asField? with
    | some f => f.kind.isList
    | none => false
  (elements.zipIdx.filter fun e => isList e.1).getLast?.map Prod.snd

/-- A removal below a list: a condition on the items of the last list, or on the first segment
where there is no list. -/
def pullBelow (operator : String) (elements : List PathElement) (storage : List String)
    (operand : Json) : String × Object :=
  let nesting :=
    match lastList? elements with
    | some at_ => dotted (storage.take (at_ + 1)) :: storage.drop (at_ + 1)
    | none => storage
  match nesting with
  | [] => ("$" ++ operator, [("", operand)])
  | [outer] => ("$" ++ operator, [(outer, operand)])
  | outer :: inner =>
    let condition := if operator = "pullAll" then .single "$in" operand else operand
    ("$pull", [(outer, nest inner condition)])

/-- A value as the list of its items. -/
def asItems (v : Json) : Json :=
  match v with
  | .array _ => v
  | _ => .array [v]

/-- An insertion into a list, at a position where the path ends in one. -/
def pushInto (operator : String) (storage : List String) (operand : Json) : String × Object :=
  match storage.getLast? with
  | some last =>
    if isIndex last then
      let position := (natural? Number.wordCount last.toList).getD 0
      ("$push", [(dotted storage.dropLast,
        .object [("$each", asItems operand), ("$position", Json.ofNat position)])])
    else ("$push", [(dotted storage, whole)])
  | none => ("$push", [(dotted storage, whole)])
where
  /-- What is pushed at the end. -/
  whole : Json := if operator = "pushAll" then .single "$each" (asItems operand) else operand

/-- The operator and the body of an operation on a resolved path. -/
def operationBody (operator : String) (elements : List PathElement) (operand : Json) :
    String × Object :=
  let storage := elements.map PathElement.storageName
  let path := dotted storage
  if beginsWith "pull" operator && hasChar '.' path then pullBelow operator elements storage operand
  else if operator = "addToSet" then
    let body := match operand with
      | .array _ => Json.single "$each" operand
      | _ => operand
    ("$addToSet", [(path, body)])
  else if operator = "push" ∨ operator = "pushAll" then pushInto operator storage operand
  else ("$" ++ operator, [(path, operand)])

/-- The value of an operation: `dec` takes the negated one. -/
def operationValue (op key : String) (v : Value) : Drawing Value :=
  if op = "dec" then
    match v.negated? with
    | some n => return n
    | none => refuseQuery (.notNumeric key v.typeName)
  else return v

/-- The operator and the body of one operation. -/
def compileOperation (c : Catalog) (t : DocumentType) (key : String) (v : Value) :
    Drawing (String × Object) := do
  match keywordSegments key with
  | op :: first :: more =>
    if !updateOperators.contains op then refuse
    else
      let v ← operationValue op key v
      let operator := nativeOperator op
      let (matcher, parts) : Option String × List String :=
        match dropLastIf comparisonOperators.contains (first :: more) with
        | some (m, rest) => (some m, rest)
        | none => (none, first :: more)
      let elements ← c.resolveQuery t (dropEscape parts)
      match terminalField? elements with
      | none => refuseQuery (.noField key)
      | some f =>
        let operand ← f.updateOperand operator matcher v
        let compared :=
          match matcher with
          | some m => .single ("$" ++ (if m = "elem_match" then "elemMatch" else m)) operand
          | none => operand
        return operationBody operator elements compared
  | _ => refuse
where
  /-- The failure of a keyword that does not begin with an operator. -/
  refuse {α : Type} : Drawing α :=
    refuseQuery (.updateOperator key (joinStrings ", " updateOperators))

/-- The update with the body of one more operation. -/
def addOperation (update : Object) (op : String) (body : Object) : Object :=
  match update.get? op with
  | some (.object existing) => update.insert op (.object (Entries.insertAll existing body))
  | _ => update.insert op (.object body)

/-- Adds operations to an update, one after the other. -/
def compileOperations (c : Catalog) (t : DocumentType) : Conditions → Object → Drawing Object
  | [], update => return update
  | (key, v) :: rest, update => do
    if key = rawKey then
      compileOperations c t rest (update.insertAll (← rawDocument key v))
    else
      let (op, body) ← compileOperation c t key v
      compileOperations c t rest (addOperation update op body)

/-- The update document of some operations. -/
def compileUpdate (c : Catalog) (t : DocumentType) (operations : Conditions) : Drawing Object :=
  compileOperations c t operations []

end DocumentMapper
