import DocumentMapper.Storage.Encoding
import DocumentMapper.Text.Numeral

/-!
# What changed in a document

The changed paths of a document are its own and, behind the path that leads there, those of the
documents embedded in it. Parts below a changed path are not looked into, and references are never
followed.

The incremental patch stores what lives at the changed paths. A path is followed through the values
and, in step with them, through the fields that describe them, because the storage names and the
stored form depend on the fields. Where no value is left, the path is removed from the store.

## Main definitions

* `Document.changedPaths` are the changed paths of a document and its embedded ones;
* `Document.incrementalPatch` is the patch that stores them.
-/

namespace DocumentMapper

open Text

/-! ### Changed paths -/

mutual

/-- The changed paths inside a value at the path `rel` of its document, whose own changed paths are
`own`. The paths are given behind `front`, which leads to the document. -/
def Value.changesAt (own : DirtyPaths) (front rel : String) : Value → List String
  | .document doc => if own.covers rel then [] else doc.changesFrom (front ++ rel ++ ".")
  | .list items => if own.covers rel then [] else changesInItems own front rel 0 items
  | .dict entries => if own.covers rel then [] else changesInEntries own front rel entries
  | _ => []
termination_by structural v => v

/-- The changed paths inside the items of a list from position `i` on. -/
def changesInItems (own : DirtyPaths) (front rel : String) (i : Nat) : List Value → List String
  | [] => []
  | v :: vs =>
    v.changesAt own front (rel ++ "." ++ toString i) ++ changesInItems own front rel (i + 1) vs
termination_by structural vs => vs

/-- The changed paths inside the values of a dict. -/
def changesInEntries (own : DirtyPaths) (front rel : String) :
    List (String × Value) → List String
  | [] => []
  | (k, v) :: rest =>
    v.changesAt own front (rel ++ "." ++ k) ++ changesInEntries own front rel rest
termination_by structural es => es

/-- The changed paths inside the attributes of a document that are not declared as references. -/
def changesInAttributes (type : DocumentType) (own : DirtyPaths) (front : String) :
    List (String × Value) → List String
  | [] => []
  | (name, v) :: rest =>
    (if (type.field? name).any fun f => f.kind.isReference then []
      else v.changesAt own front name) ++ changesInAttributes type own front rest
termination_by structural es => es

/-- The changed paths of a document and of those embedded in it, behind `front`. -/
def Document.changesFrom (front : String) : Document → List String
  | ⟨type, values, dirty, _⟩ =>
    dirty.paths.map (front ++ ·) ++ changesInAttributes type dirty front values
termination_by structural d => d

end

/-- The changed paths of a document and of those embedded in it. -/
def Document.changedPaths (d : Document) : DirtyPaths :=
  DirtyPaths.empty.markAll (d.changesFrom "")

/-! ### The patch of what changed -/

/-- A place in a document: the value that lives there and the field that describes it, as far as
there are any. -/
structure Place where
  field : Option Field
  value : Option Value

/-- The field below a field where no value guides the way. -/
def Field.below? (f : Field) (segment : String) : Option Field :=
  match f.kind with
  | .embedded type => type.field? segment
  | .list element => some element
  | .dict element => some (element.renamed segment)
  | _ => none

namespace Place

/-- The place of an attribute of a document. -/
def inDocument (d : Document) (name : String) : Place where
  field := d.type.describe? name
  value := Entries.get? d.values name

/-- The storage name of the attribute at a place. -/
def storageName (p : Place) (name : String) : String :=
  (p.field.map Field.storageName).getD name

/-- The place one segment further, and the segment in the store. -/
def enter (p : Place) (segment : String) : Place × String :=
  match p.value with
  | some (.list items) =>
    ({ field := p.field.bind (·.kind.element?)
       value := (position? segment).bind fun i => items[i]? }, segment)
  | some (.dict entries) =>
    ({ field := (p.field.bind (·.kind.element?)).map (·.renamed segment)
       value := Entries.get? entries segment }, segment)
  | some (.document doc) =>
    let next := inDocument doc segment
    (next, next.storageName segment)
  | _ => ({ field := p.field.bind (·.below? segment), value := none }, segment)

/-- The place several segments further, and the segments in the store. -/
def follow (p : Place) : List String → Place × List String
  | [] => (p, [])
  | segment :: rest =>
    let (next, stored) := p.enter segment
    let (last, more) := next.follow rest
    (last, stored :: more)

/-- The stored form of what lives at a place, null where nothing does. -/
def toJson (p : Place) : Drawing Json :=
  match p.value, p.field with
  | none, _ => return .null
  | some v, some f => v.encode f
  | some v, none => v.plain

end Place

/-- The place at a path of a document, and the path in the store. -/
def Document.locate (d : Document) (path : String) : Place × String :=
  match dottedSegments path with
  | [] => (⟨none, none⟩, path)
  | first :: rest =>
    let start := Place.inDocument d first
    let (last, stored) := start.follow rest
    (last, dotted (start.storageName first :: stored))

/-- Adds what lives at some paths of a document to a patch. -/
def Document.patchPaths (d : Document) : List String → Patch → Drawing Patch
  | [], p => return p
  | path :: rest, p => do
    let (place, key) := d.locate path
    d.patchPaths rest (p.put key (← place.toJson))

/-- The patch of what changed in a document. -/
def Document.incrementalPatch (d : Document) : Drawing Patch :=
  d.patchPaths d.changedPaths.paths .empty

end DocumentMapper
