import DocumentMapper.Filter.Geometry
import DocumentMapper.Filter.Operand
import DocumentMapper.Schema.FieldPath

/-!
# Keyword conditions

A condition is a keyword and a value. The keyword is a path, written with double underscores, with
an optional operator at its end: `age__gte`, `name__not__startswith`, `comments__0__author`. A
trailing double underscore says that the last segment is a field even if it is spelled like an
operator.

`compile` renders a list of conditions, all of which have to hold, as a filter document. Conditions
on the same path are merged into one operator map as long as their operators differ; the others
are collected under `$and`. Under the keyword `__raw__` stands a filter document that is taken as
it is.
-/

namespace DocumentMapper

open Text

/-- Keywords with their values, in order and without repetition. -/
abbrev Conditions := Entries Value

/-- The keyword of a raw filter or update document. -/
def rawKey : String := "__raw__"

/-- The operators that compare values. -/
def comparisonOperators : List String :=
  ["ne", "gt", "gte", "lt", "lte", "in", "nin", "mod", "all", "size", "exists", "not",
    "elem_match", "elemMatch", "type"]

/-- Whether a segment is an operator of filters. -/
def isMatchOperator (op : String) : Bool :=
  comparisonOperators.contains op || isGeoOperator op || isTextOperator op || op == "match"

/-- Whether an operator takes one value of the field. -/
def isSingular : Option String → Bool
  | none => true
  | some op => ["ne", "gt", "gte", "lt", "lte", "not"].contains op || isTextOperator op

/-- Whether an operator asks for a matching item of a list. -/
def isItemOperator (op : String) : Bool :=
  op == "match" || op == "elem_match" || op == "elemMatch"

/-- The parts of a keyword. -/
structure Keyword where
  /-- The segments that are names. -/
  names : List String
  operator : Option String
  isNegated : Bool
  /-- The segments that are numbers, with their places among all segments. -/
  indices : List (Nat × String)

/-- Drops the last of several segments if it meets a condition. -/
def dropLastIf (p : String → Bool) (parts : List String) : Option (String × List String) :=
  match parts.getLast? with
  | some last => if 1 < parts.length ∧ p last then some (last, parts.dropLast) else none
  | none => none

/-- The names without an empty last one. -/
def dropEscape (parts : List String) : List String :=
  match dropLastIf String.isEmpty parts with
  | some (_, rest) => rest
  | none => parts

/-- The parts of a keyword text. -/
def Keyword.read (key : String) : Keyword :=
  let segments := keywordSegments key
  let names := segments.filter fun s => !isIndex s
  let (operator, names) : Option String × List String :=
    match dropLastIf isMatchOperator names with
    | some (op, rest) => (some op, rest)
    | none => (none, names)
  let names := dropEscape names
  let (isNegated, names) : Bool × List String :=
    match dropLastIf (· == "not") names with
    | some (_, rest) => (true, rest)
    | none => (false, names)
  { names, operator, isNegated
    indices := (segments.zipIdx.filter fun s => isIndex s.1).map fun s => (s.2, s.1) }

/-- Puts the numbers of a keyword back to their places. -/
def reinsert (indices : List (Nat × String)) (names : List String) : List String :=
  indices.foldl (fun acc i => acc.take i.1 ++ i.2 :: acc.drop i.1) names

/-- The failure of a filter or an update. -/
def refuseQuery {α : Type} (cause : QueryError) : Drawing α :=
  throw (.invalidQuery cause)

/-- A result that fails as a filter or an update. -/
def Drawing.ofQuery {α : Type} : Except QueryError α → Drawing α
  | .ok x => return x
  | .error cause => refuseQuery cause

/-- The elements of a path in a filter or an update. -/
def Catalog.resolveQuery (c : Catalog) (t : DocumentType) (names : List String) :
    Drawing (List PathElement) :=
  .ofQuery ((c.resolve t names).mapError .path)

/-- The document that stands under a raw keyword. -/
def rawDocument (key : String) (v : Value) : Drawing Object := do
  match ← v.plain with
  | .object entries => return entries
  | _ => refuseQuery (.notDocument key v.typeName)

/-- The operand of an operator that takes a list of values. -/
def Field.listOperand (f : Field) (op : String) (v : Value) : Drawing Json :=
  match v with
  | .list items => do return .array (← items.mapM fun item => f.operand (some op) item)
  | _ => refuseQuery (.operandList op)

/-- The suffix of a path into a generic reference: what part of it the operand is compared with. -/
def genericSuffix : Json → String
  | .object entries => if Entries.contains entries "$ref" then "._ref" else ""
  | .string _ | .whole _ | .float _ => "._ref.$id"
  | _ => ""

/-- The names with a suffix at the last one. -/
def suffixLast (suffix : String) : List String → List String
  | [] => []
  | [last] => [last ++ suffix]
  | name :: rest => name :: suffixLast suffix rest

/-- Whether a compiled operand already has its operator. -/
def isPassedThrough (op : String) : Bool :=
  isGeoOperator op || isTextOperator op || isItemOperator op

/-- The operand of one condition, without its operator. `itemMatch` compiles the value as a
condition on the items of a list. -/
def compileOperand (f : Field) (op : Option String) (v : Value)
    (itemMatch : Field → Drawing Json) : Drawing Json :=
  match op with
  | none => f.operand none v
  | some o =>
    if isGeoOperator o then do Drawing.ofQuery (f.geoCondition o (← v.plain))
    else if isSingular op then f.operand op v
    else if ["in", "nin", "all"].contains o && v.asDict?.isNone then f.listOperand o v
    else if isItemOperator o then itemMatch f
    else v.plain

/-- The path and the operand of one condition. -/
def compileCondition (c : Catalog) (t : DocumentType) (key : String) (v : Value)
    (itemMatch : Field → Drawing Json) : Drawing (String × Json) := do
  let keyword := Keyword.read key
  let elements ← c.resolveQuery t keyword.names
  match terminalField? elements with
  | none => refuseQuery (.noField key)
  | some f =>
    let operand ← compileOperand f keyword.operator v itemMatch
    let names := elements.map PathElement.storageName
    let names :=
      match f.kind with
      | .genericReference => suffixLast (genericSuffix operand) names
      | _ => names
    let compared :=
      match keyword.operator with
      | some op => if isPassedThrough op then operand else .single ("$" ++ op) operand
      | none => operand
    let condition := if keyword.isNegated then .single "$not" compared else compared
    return (dotted (reinsert keyword.indices names), condition)

/-! ### Merging conditions on one path -/

/-- Whether a key is an operator. -/
def isOperatorKey (key : String) : Bool :=
  beginsWith "$" key

/-- The distances belong to the operator that they limit: inside its operand where that is a
document, and behind it otherwise. -/
def orderDistances (entries : Object) : Object :=
  if !(entries.contains "$near" || entries.contains "$nearSphere") then entries
  else
    let take (state : Object × Object) (key : String) : Object × Object :=
      match state.1.get? key with
      | some v => (state.1.swapErase key, state.2 ++ [(key, v)])
      | none => state
    let (rest, distances) := ["$maxDistance", "$minDistance"].foldl take (entries, [])
    if distances.isEmpty then rest
    else
      let embed (state : Object × Bool) (near : String) : Object × Bool :=
        match state.1.get? near with
        | some (.object operand) =>
          (state.1.insert near (.object (Entries.insertAll operand distances)), true)
        | _ => state
      let (placed, isEmbedded) := ["$near", "$nearSphere"].foldl embed (rest, false)
      if isEmbedded then placed else placed.insertAll distances

/-- Two operator maps as one, if no operator is in both. -/
def mergeOperators? (current incoming : Json) : Option Json :=
  match current, incoming with
  | .object a, .object b =>
    if (a ++ b).all (fun e => isOperatorKey e.1) && b.all (fun e => !Entries.contains a e.1) then
      some (.object (orderDistances (Entries.insertAll a b)))
    else none
  | _, _ => none

/-- A filter under construction: conditions by path, and for each path the conditions that could
not be merged. -/
structure Draft where
  query : Object
  deferred : Entries (List Json)

/-- The draft with one more condition. -/
def Draft.add (d : Draft) (path : String) (condition : Json) : Draft :=
  match d.query.get? path with
  | none => { d with query := d.query.insert path condition }
  | some current =>
    match mergeOperators? current condition with
    | some merged => { d with query := d.query.insert path merged }
    | none =>
      { d with deferred :=
          d.deferred.insert path ((d.deferred.get? path).getD [] ++ [condition]) }

/-- Moves the conditions of one path under `$and`. -/
def deferPath (query : Object) (path : String) (conditions : List Json) : Object :=
  let (query, conditions) : Object × List Json :=
    match query.get? path with
    | some first => (query.swapErase path, first :: conditions)
    | none => (query, conditions)
  let clauses := conditions.map (Json.single path)
  match query.get? "$and" with
  | some (.array existing) => query.insert "$and" (.array (existing ++ clauses))
  | _ => query.insert "$and" (.array clauses)

/-- The filter of a draft. -/
def Draft.finish (d : Draft) : Object :=
  d.deferred.foldl (fun query e => deferPath query e.1 e.2) d.query

/-! ### Compiling -/

mutual

/-- A value as a condition on the items of a list field: keyword conditions where the items are
documents of a known type, the value itself otherwise. -/
def Value.itemMatch (c : Catalog) : Value → Field → Drawing Json
  | .dict entries, f => do
    match f.kind with
    | .list element =>
      match element.kind with
      | .embedded t =>
        let draft ← compileEntries c entries t ⟨[], []⟩
        return .single "$elemMatch" (.object draft.finish)
      | _ => return .single "$elemMatch" (← (Value.dict entries).plain)
    | _ => return .single "$elemMatch" (← (Value.dict entries).plain)
  | v, f => do return .single "$elemMatch" (← f.operand (some "elem_match") v)
termination_by structural v => v

/-- Adds conditions to a draft, one after the other. -/
def compileEntries (c : Catalog) : List (String × Value) → DocumentType → Draft → Drawing Draft
  | [], _, d => return d
  | (key, v) :: rest, t, d => do
    if key = rawKey then
      compileEntries c rest t { d with query := d.query.insertAll (← rawDocument key v) }
    else
      let (path, condition) ← compileCondition c t key v (fun f => v.itemMatch c f)
      compileEntries c rest t (d.add path condition)
termination_by structural es => es

end

/-- The filter document of some conditions. -/
def compile (c : Catalog) (t : DocumentType) (conditions : Conditions) : Drawing Object := do
  return (← compileEntries c conditions t ⟨[], []⟩).finish

end DocumentMapper
