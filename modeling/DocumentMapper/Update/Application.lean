import DocumentMapper.Filter.Matching

/-!
# Applying updates

An update document changes a stored document. Without an operator among its keys it replaces the
document, which keeps its id. Otherwise every operator has a map of paths and operands, and the
entries take effect one after the other.

An entry that fails ends the update: the entries before it have taken effect, those behind it have
not. An entry that fails leaves its document as it was, with two exceptions: `$pull` has emptied its
array when a condition on the items cannot be evaluated, and `$rename` has removed the old name when
the new one cannot be written.

A `$` segment of a path stands for the position of the first item that meets the conditions of the
filter on its array; it is found in the document as it was before the update.

## Main definitions

* `Object.applyOperator` applies one entry, `Object.apply` an update document;
* `positionalPath` replaces the `$` segment of a path.
-/

namespace DocumentMapper

open Number Text

/-- A document after an update, and what ended the update early. -/
structure Applied where
  doc : Object
  failure : Option StoreError

namespace Applied

/-- A change that was made, or else the document as it was and the reason. -/
def ofExcept (doc : Object) : Except StoreError Object → Applied
  | .ok changed => ⟨changed, none⟩
  | .error cause => ⟨doc, some cause⟩

/-- Goes on with another change unless something went wrong. -/
def andThen (a : Applied) (next : Object → Applied) : Applied :=
  match a.failure with
  | some _ => a
  | none => next a.doc

/-- Whether the document differs from what it was before, if nothing went wrong. -/
def result (a : Applied) (before : Object) : Except StoreError Bool :=
  match a.failure with
  | some cause => throw cause
  | none => return !a.doc.equal before

end Applied

/-! ### Numbers -/

/-- The result of an operation on two numbers: exact on signed words as long as the result is one,
else the nearest binary64 value. -/
def combineNumbers (op : String) (onWords : Int → Int → Int)
    (onDoubles : Binary64 → Binary64 → Option Binary64) (current operand : Json) :
    Except StoreError Json :=
  let exact :=
    match current.asInt64?, operand.asInt64? with
    | some a, some b => (word? (onWords a.toInt b.toInt)).map Json.ofInt64
    | _, _ => none
  let rounded :=
    match current.asDouble?, operand.asDouble? with
    | some (.finite a), some (.finite b) => (onDoubles a b).map Json.float
    | _, _ => none
  match exact.or rounded with
  | some result => return result
  | none => throw (.numeric op)

/-! ### Items of arrays -/

/-- The items with further values from a place on. Values that are to be unique are left out where
an equal item is there already. -/
def insertEach (unique : Bool) : List Json → Nat → List Json → List Json
  | [], _, items => items
  | v :: vs, place, items =>
    if unique && Json.isIn items v then insertEach unique vs place items
    else insertEach unique vs (place + 1) (items.insertIdx place v)

/-- The values to push and the place for them: the operand itself goes to the end, unless it lists
the values under `$each`. -/
def pushedValues (operand : Json) : Except StoreError (List Json × Option Nat) :=
  match operand with
  | .object modifiers =>
    match Entries.get? modifiers "$each" with
    | some (.array values) =>
      return (values, (Entries.get? modifiers "$position").bind Json.asNat?)
    | some _ => throw (.operandArray "$each")
    | none => return ([operand], none)
  | _ => return ([operand], none)

/-- Whether an item meets the condition of a `$pull`: operators, a filter for documents, or
equality. -/
def itemMeets (item condition : Json) : Except StoreError Bool :=
  match condition with
  | .object entries =>
    if isOperatorMap entries then conditionHolds condition [item] 0
    else
      match item with
      | .object element => Object.meets element entries
      | _ => return false
  | _ => return item.equal condition

/-- The items that do not meet a condition. -/
def itemsNotMeeting (condition : Json) : List Json → Except StoreError (List Json)
  | [] => return []
  | item :: rest => do
    let met ← itemMeets item condition
    let kept ← itemsNotMeeting condition rest
    return if met then kept else item :: kept

/-! ### Operators -/

namespace Object

/-- Changes the items of the array at a path; a missing array starts empty. -/
def changeArray (doc : Object) (path op : String) (f : List Json → List Json) :
    Except StoreError Object := do
  let (doc, items) ← doc.arrayAt path op
  doc.setPath path (.array (f items))

/-- Pushes values into the array at a path. -/
def push (doc : Object) (path op : String) (unique : Bool) (operand : Json) :
    Except StoreError Object := do
  let (values, place) ← pushedValues operand
  doc.changeArray path op fun items =>
    insertEach unique values (min (place.getD items.length) items.length) items

/-- Sets a path to the result of an operation on its number; a missing number is zero. -/
def changeNumber (doc : Object) (path op : String) (onWords : Int → Int → Int)
    (onDoubles : Binary64 → Binary64 → Option Binary64) (operand : Json) :
    Except StoreError Object := do
  let current := (doc.getPath? path).getD (.ofInt64 0)
  doc.setPath path (← combineNumbers op onWords onDoubles current operand)

/-- Sets a path if it is missing or the operand stands in the wanted order to its value. -/
def setIfOrdered (doc : Object) (path : String) (wanted : Ordering) (operand : Json) :
    Except StoreError Object :=
  match doc.getPath? path with
  | some current =>
    if operand.compare? current == some wanted then doc.setPath path operand else return doc
  | none => doc.setPath path operand

/-- Removes the items that meet a condition from the array at a path. -/
def pull (doc : Object) (path op : String) (condition : Json) : Applied :=
  match doc.arrayAt path op with
  | .error cause => ⟨doc, some cause⟩
  | .ok (found, items) =>
    match itemsNotMeeting condition items with
    | .ok kept => .ofExcept found (found.setPath path (.array kept))
    | .error cause => { Applied.ofExcept found (found.setPath path (.array [])) with
        failure := some cause }

/-- Removes equal items from the array at a path. -/
def pullAll (doc : Object) (path op : String) (operand : Json) : Except StoreError Object :=
  match operand with
  | .array removed => doc.changeArray path op (·.filter fun item => !Json.isIn removed item)
  | _ => throw (.operandArray op)

/-- Moves the value at a path to another path. -/
def rename (doc : Object) (path : String) (operand : Json) : Applied :=
  match operand with
  | .string target =>
    match doc.removePath? path with
    | some (value, rest) => .ofExcept rest (rest.setPath target value)
    | none => ⟨doc, none⟩
  | _ => ⟨doc, some .renameTarget⟩

/-- Applies one operator to one path. -/
def applyOperator (doc : Object) (op path : String) (operand : Json) (inserting : Bool) :
    Applied :=
  match op with
  | "$set" => .ofExcept doc (doc.setPath path operand)
  | "$setOnInsert" =>
    if inserting then .ofExcept doc (doc.setPath path operand) else ⟨doc, none⟩
  | "$unset" => ⟨doc.removePath path, none⟩
  | "$inc" => .ofExcept doc (doc.changeNumber path op (· + ·) Binary64.add? operand)
  | "$mul" => .ofExcept doc (doc.changeNumber path op (· * ·) Binary64.mul? operand)
  | "$min" => .ofExcept doc (doc.setIfOrdered path .lt operand)
  | "$max" => .ofExcept doc (doc.setIfOrdered path .gt operand)
  | "$push" => .ofExcept doc (doc.push path op false operand)
  | "$addToSet" => .ofExcept doc (doc.push path op true operand)
  | "$pull" => doc.pull path op operand
  | "$pullAll" => .ofExcept doc (doc.pullAll path op operand)
  | "$pop" =>
    .ofExcept doc (doc.changeArray path op fun items =>
      if operand.asInt64? == some (-1) then items.drop 1 else items.dropLast)
  | "$rename" => doc.rename path operand
  | _ => ⟨doc, some (.updateOperator op)⟩

end Object

/-! ### The positional segment -/

/-- Whether an item meets the condition that a filter puts on its whole array. -/
def itemMeetsWhole (item condition : Json) : Except StoreError Bool :=
  match (condition.asObject?.getD []).get? "$elemMatch" with
  | some inner => itemMeets item inner
  | none => conditionHolds condition [item] 0

/-- Whether an item meets the conditions that a filter puts below its array. -/
def itemMeetsAll (item : Json) : List (String × Json) → Except StoreError Bool
  | [] => return true
  | (rest, condition) :: more => do
    let values :=
      match item with
      | .object element => Object.lookup element rest
      | _ => []
    if ← conditionHolds condition values 0 then itemMeetsAll item more else return false

/-- The conditions that a filter puts below an array. -/
def conditionsBelow (filter : Object) (arrayPath : String) : List (String × Json) :=
  filter.filterMap fun e =>
    (dropStart? (arrayPath ++ ".") e.1).map fun rest => (rest, e.2)

/-- The position, counted from `index`, of the first item that meets the given conditions. -/
def firstMeeting (below : List (String × Json)) (whole : Option Json) :
    Nat → List Json → Except StoreError Nat
  | _, [] => throw .positional
  | index, item :: rest => do
    let meetsBelow ← itemMeetsAll item below
    let meetsWhole ←
      match whole with
      | some condition => if meetsBelow then itemMeetsWhole item condition else pure false
      | none => pure true
    if meetsBelow && meetsWhole && (!below.isEmpty || whole.isSome) then return index
    else firstMeeting below whole (index + 1) rest

/-- The path with its first `$` segment replaced by a position. -/
def positionalPath (doc filter : Object) (path : String) : Except StoreError String := do
  let segments := dottedSegments path
  let front := segments.takeWhile (· ≠ "$")
  match segments.drop front.length with
  | [] => return path
  | _ :: rest =>
    let arrayPath := dotted front
    let items := ((doc.getPath? arrayPath).bind Json.asArray?).getD []
    let index ← firstMeeting (conditionsBelow filter arrayPath) (filter.get? arrayPath) 0 items
    return dotted (front ++ toString index :: rest)

/-! ### Update documents -/

namespace Object

/-- The document that replaces another one, whose id it takes. -/
def replaceBy (doc replacement : Object) : Object :=
  match doc.get? "_id" with
  | some id => replacement.insert "_id" id
  | none => replacement

/-- Applies one operator to several paths. `before` is the document as it was. -/
def applyEntries (before filter : Object) (op : String) (inserting : Bool) :
    List (String × Json) → Object → Applied
  | [], doc => ⟨doc, none⟩
  | (rawPath, operand) :: rest, doc =>
    match positionalPath before filter rawPath with
    | .error cause => ⟨doc, some cause⟩
    | .ok path =>
      (doc.applyOperator op path operand inserting).andThen
        (applyEntries before filter op inserting rest)

/-- Applies several operators. -/
def applyOperators (before filter : Object) (inserting : Bool) :
    List (String × Json) → Object → Applied
  | [], doc => ⟨doc, none⟩
  | (op, .object entries) :: rest, doc =>
    (applyEntries before filter op inserting entries doc).andThen
      (applyOperators before filter inserting rest)
  | (op, _) :: _, doc => ⟨doc, some (.updateDocument op)⟩

/-- Applies an update to a document that meets the filter. `inserting` says that the document is
about to be inserted. -/
def apply (doc filter update : Object) (inserting : Bool) : Applied :=
  if update.any fun e => beginsWith "$" e.1 then
    applyOperators doc filter inserting update doc
  else ⟨doc.replaceBy update, none⟩

end Object

end DocumentMapper
