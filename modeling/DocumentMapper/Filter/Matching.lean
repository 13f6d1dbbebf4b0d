import DocumentMapper.Json.Path
import DocumentMapper.Pattern.Reader

/-!
# Evaluating filters

Whether a stored document meets a filter document. Every entry of a filter has to hold: a
connective over other filters, or a condition on the values at a path. A condition is a map of
operators that all have to be met, or else a value to be equal to.

A path can lead to several values, and a value can be an array: a comparison is met if one of the
values, or one of the items of an array among them, meets it. Without any value only null is equal.

Entries are evaluated in order and evaluation ends with the first that does not hold, so a malformed
entry behind it is not noticed. Filters are nested at most `nestingLimit` deep.

## Main definitions

* `Object.meetsAt` evaluates a filter at some depth, `Object.meets` from the top;
* `conditionHolds` evaluates one condition on the values at a path.
-/

namespace DocumentMapper

open Text

/-- How deep filters can be nested. -/
def nestingLimit : Nat := 32

/-! ### Tests on values -/

namespace Json

/-- Whether the value is a number. -/
def isNumber : Json → Bool
  | whole _ | float _ => true
  | _ => false

/-- Equality as filters see it: numbers are equal by value, whatever their form. -/
def sameValue (a b : Json) : Bool :=
  if a.isNumber && b.isNumber then a.compare? b == some .eq else a.equal b

/-- Whether a flag counts as set. -/
def isTruthy : Json → Bool
  | null => false
  | bool b => b
  | whole n => n.val ≠ 0
  | float x => !x.isZero
  | _ => true

/-- The name of the kind of a stored value. -/
def typeName : Json → String
  | null => "null"
  | bool _ => "bool"
  | whole _ => "long"
  | float _ => "double"
  | string _ => "string"
  | array _ => "array"
  | object _ => "object"

/-- Whether the value, or an item of it if it is an array, meets a test. -/
def anyOf (test : Json → Bool) : Json → Bool
  | array items => items.any test
  | v => test v

end Json

/-- Whether entries are operators: there are some, and every key begins with a dollar sign. -/
def isOperatorMap (entries : Object) : Bool :=
  !entries.isEmpty && entries.all fun e => beginsWith "$" e.1

/-- Whether one of the values is equal to the expected one or contains it. -/
def equalsAny (values : List Json) (expected : Json) : Bool :=
  if values.isEmpty then expected.isNull
  else values.any fun v =>
    v.sameValue expected || (v.asArray?.getD []).any fun item => item.sameValue expected

/-- Whether one of the values stands in an accepted order to the operand. -/
def comparesAny (accept : Ordering → Bool) (values : List Json) (operand : Json) : Bool :=
  values.any (Json.anyOf fun v => (v.compare? operand).any accept)

/-- Whether a pattern is found in one of the values. -/
def patternInAny (anyCase : Bool) (values : List Json) (pattern : Json) :
    Except StoreError Bool :=
  match pattern with
  | .string text =>
    match Pattern.read? anyCase text with
    | some node => return values.any (Json.anyOf fun v => v.asString?.any node.search)
    | none => throw .pattern
  | _ => throw .patternText

/-- Whether one of the values is an array of the given size. -/
def hasSize (values : List Json) (size : Json) : Except StoreError Bool :=
  match size.asNat? with
  | some n => return values.any fun v => v.asArray?.any fun items => items.length == n
  | none => throw .size

/-- Whether one of the values is an array with all wanted items, or is itself the only one. -/
def containsAll (values : List Json) (wanted : Json) : Except StoreError Bool :=
  match wanted with
  | .array items =>
    return values.any fun v =>
      match v with
      | .array present => items.all (Json.isIn present)
      | _ => items.length == 1 && items.all fun w => v.equal w
  | _ => throw (.operandArray "$all")

/-- Whether one of the values is a signed word with the given remainder. -/
def hasRemainder (values : List Json) (operand : Json) : Except StoreError Bool :=
  match operand with
  | .array [divisor, remainder] =>
    match divisor.asInt64?, remainder.asInt64? with
    | some d, some r =>
      if d = 0 then throw .modulus
      else return values.any fun v => v.asInt64?.any fun n => n % d == r
    | _, _ => throw .modulus
  | _ => throw .modulus

/-- The operators that contain no other condition. -/
def plainOperator (op : String) (operand : Json) (anyCase : Bool) (values : List Json) :
    Except StoreError Bool :=
  match op with
  | "$eq" => return equalsAny values operand
  | "$ne" => return !equalsAny values operand
  | "$gt" => return comparesAny (· == .gt) values operand
  | "$gte" => return comparesAny (· != .lt) values operand
  | "$lt" => return comparesAny (· == .lt) values operand
  | "$lte" => return comparesAny (· != .gt) values operand
  | "$exists" => return values.isEmpty != operand.isTruthy
  | "$regex" => patternInAny anyCase values operand
  | "$options" => return true
  | "$size" => hasSize values operand
  | "$all" => containsAll values operand
  | "$mod" => hasRemainder values operand
  | "$type" => return values.any fun v => operand.asString? == some v.typeName
  | _ => throw (.filterOperator op)

/-- Whether the options of a pattern ask to ignore case. -/
def ignoresCase (operators : Object) : Bool :=
  ((operators.get? "$options").bind Json.asString?).any (hasChar 'i')

/-- Whether the first item that answers does so with yes; an error ends the search. -/
def findAny {α : Type} (test : α → Except StoreError Bool) : List α → Except StoreError Bool
  | [] => return false
  | x :: rest => do if ← test x then return true else findAny test rest

/-- The items of those values that are arrays. -/
def itemsOf (values : List Json) : List Json :=
  values.flatMap fun v => v.asArray?.getD []

/-! ### Conditions and filters -/

mutual

/-- Whether the values at a path meet a condition: every operator of a map of operators, and
equality with any other value. -/
def conditionHolds : Json → List Json → Nat → Except StoreError Bool
  | .object entries, values, depth =>
    if isOperatorMap entries then operatorsHold entries (ignoresCase entries) values depth
    else return equalsAny values (.object entries)
  | expected, values, _ => return equalsAny values expected
termination_by structural condition => condition

/-- Whether values meet all operators of a map. -/
def operatorsHold : List (String × Json) → Bool → List Json → Nat → Except StoreError Bool
  | [], _, _, _ => return true
  | (op, operand) :: rest, anyCase, values, depth => do
    let holds ←
      match op with
      | "$in" => isAmong op operand values
      | "$nin" => (isAmong op operand values).map (!·)
      | "$not" => (conditionHolds operand values (depth + 1)).map (!·)
      | "$elemMatch" => findAny (fun item => itemHolds operand item (depth + 1)) (itemsOf values)
      | _ => plainOperator op operand anyCase values
    if holds then operatorsHold rest anyCase values depth else return false
termination_by structural entries => entries

/-- Whether values meet one of the candidates of a list. -/
def isAmong (op : String) : Json → List Json → Except StoreError Bool
  | .array candidates, values => candidateHolds candidates values
  | _, _ => throw (.operandArray op)
termination_by structural operand => operand

/-- Whether values meet one of the candidates: a pattern is searched for, anything else is to be
equal. -/
def candidateHolds : List Json → List Json → Except StoreError Bool
  | [], _ => return false
  | candidate :: rest, values => do
    let holds ←
      if (candidate.asObject?.getD []).contains "$regex" then conditionHolds candidate values 0
      else pure (equalsAny values candidate)
    if holds then return true else candidateHolds rest values
termination_by structural candidates => candidates

/-- Whether an item of an array meets a condition: a map of operators, or a filter for items that
are documents. -/
def itemHolds : Json → Json → Nat → Except StoreError Bool
  | .object entries, item, depth =>
    if isOperatorMap entries then operatorsHold entries (ignoresCase entries) [item] depth
    else
      match item with
      | .object element =>
        if nestingLimit < depth then throw (.nesting nestingLimit)
        else entriesHold entries element depth
      | _ => return false
  | _, _, _ => return false
termination_by structural condition => condition

/-- Whether a document meets all entries of a filter. -/
def entriesHold : List (String × Json) → Object → Nat → Except StoreError Bool
  | [], _, _ => return true
  | (key, condition) :: rest, doc, depth => do
    let holds ←
      match key with
      | "$and" => (clauseAnswers key condition false doc (depth + 1)).map (!·)
      | "$or" => clauseAnswers key condition true doc (depth + 1)
      | "$nor" => (clauseAnswers key condition true doc (depth + 1)).map (!·)
      | _ =>
        if beginsWith "$" key then throw (.topLevelOperator key)
        else conditionHolds condition (doc.lookup key) depth
    if holds then entriesHold rest doc depth else return false
termination_by structural entries => entries

/-- Whether one of the clauses of a connective gives the answer looked for. All clauses have to be
filters. -/
def clauseAnswers (op : String) : Json → Bool → Object → Nat → Except StoreError Bool
  | .array clauses, answer, doc, depth =>
    if clauses.all fun clause => clause.asObject?.isSome then anyAnswers clauses answer doc depth
    else throw (.clauseDocuments op)
  | _, _, _, _ => throw (.operandArray op)
termination_by structural operand => operand

/-- Whether one of the filters gives the answer looked for. -/
def anyAnswers : List Json → Bool → Object → Nat → Except StoreError Bool
  | [], _, _, _ => return false
  | clause :: rest, answer, doc, depth => do
    if (← filterHolds clause doc depth) == answer then return true
    else anyAnswers rest answer doc depth
termination_by structural clauses => clauses

/-- Whether a document meets a filter given as a stored value, at some depth. -/
def filterHolds : Json → Object → Nat → Except StoreError Bool
  | .object entries, doc, depth =>
    if nestingLimit < depth then throw (.nesting nestingLimit) else entriesHold entries doc depth
  | _, _, _ => return false
termination_by structural filter => filter

end

namespace Object

/-- Whether the document meets a filter that is nested at some depth. -/
def meetsAt (doc filter : Object) (depth : Nat) : Except StoreError Bool :=
  filterHolds (.object filter) doc depth

/-- Whether the document meets a filter. -/
def meets (doc filter : Object) : Except StoreError Bool :=
  doc.meetsAt filter 0

end Object

end DocumentMapper
