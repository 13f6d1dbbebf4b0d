import DocumentMapper.Schema.Catalog
import DocumentMapper.Text.Numeral

/-!
# Paths to fields

A path is resolved segment by segment from a type down. Each segment becomes an element: the field
that it names, or a position inside a list. The storage names of the elements are the path in the
store.

* On a type a segment is an attribute, a storage name or `pk`; where subtypes are allowed also an
  attribute of a registered subtype; on a dynamic type anything.
* Below a list a number or a positional mark is a position; any other segment belongs to the items.
* Below a dict a segment is a key. Below a field that holds anything every segment is accepted.
* A path never goes through a reference, and a plain value has no parts.
-/

namespace DocumentMapper

open Text

/-- One resolved segment. -/
inductive PathElement where
  | field (f : Field)
  /-- A position in a list, or the mark for the position that a filter found. -/
  | position (segment : String)

namespace PathElement

/-- The segment in the store. -/
def storageName : PathElement → String
  | field f => f.storageName
  | position segment => segment

/-- The field of the element. -/
def asField? : PathElement → Option Field
  | field f => some f
  | position _ => none

end PathElement

/-- The dotted path in the store. -/
def storagePath (elements : List PathElement) : String :=
  dotted (elements.map PathElement.storageName)

/-- The last field on the way. -/
def terminalField? (elements : List PathElement) : Option Field :=
  elements.reverse.findSome? PathElement.asField?

/-- Whether a segment is a number. -/
def isIndex (segment : String) : Bool :=
  isDigits segment.toList

/-- Whether a segment stands for a position in a list. -/
def isPositional (segment : String) : Bool :=
  isIndex segment || segment == "$" || segment == "S"

/-- The stored form of a positional segment. -/
def positionSegment (segment : String) : String :=
  if segment = "S" then "$" else segment

/-- The field that a segment names on a type. -/
def Catalog.fieldOn (c : Catalog) (t : DocumentType) (segment : String) :
    Except PathError Field :=
  let name := t.attributeOf segment
  match (t.field? name).or (t.storedField? name) with
  | some f => return f
  | none =>
    let inherited :=
      if t.allowsInheritance then (c.subtypesOf t).findSome? (·.field? name) else none
    match inherited with
    | some f => return f
    | none => if t.isDynamic then return .any name else throw (.unknown name)

mutual

/-- The element that a segment is below a field, and the field whose parts come next. `path` is
quoted in errors. -/
def Field.enter (c : Catalog) (path segment : String) :
    Field → Except PathError (PathElement × Field)
  | ⟨name, _, _, kind, _, _⟩ => kind.enter c path segment name
termination_by structural f => f

/-- The same for the kind of a field of the given name. -/
def Kind.enter (c : Catalog) (path segment name : String) :
    Kind → Except PathError (PathElement × Field)
  | .embedded t => (c.fieldOn t segment).map fun f => (.field f, f)
  | .scalar .any =>
    if isIndex segment then return (.position segment, .any name)
    else return (.field (.any segment), .any segment)
  | .scalar _ => throw (.subfield segment name)
  | .reference _ => throw (.join path)
  | .genericReference => throw (.join path)
  | .list element =>
    if isPositional segment then return (.position (positionSegment segment), element)
    else element.enter c path segment
  | .dict element => return (.field (element.renamed segment), element.renamed segment)
termination_by structural k => k

end

/-- The elements of further segments below a field. -/
def Field.walk (c : Catalog) (path : String) :
    Field → List String → Except PathError (List PathElement)
  | _, [] => return []
  | f, segment :: rest => do
    let (element, next) ← f.enter c path segment
    return element :: (← next.walk c path rest)

/-- The elements of a path on a type. -/
def Catalog.resolve (c : Catalog) (t : DocumentType) :
    List String → Except PathError (List PathElement)
  | [] => return []
  | segment :: rest => do
    let f ← c.fieldOn t segment
    return .field f :: (← f.walk c (joinStrings "__" (segment :: rest)) rest)

end DocumentMapper
