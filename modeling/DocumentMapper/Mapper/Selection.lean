import DocumentMapper.Filter.Expression
import DocumentMapper.Mapper.References
import DocumentMapper.Mapper.Session
import DocumentMapper.Settings
import DocumentMapper.Update.Operations

/-!
# Selecting documents

A selection describes documents of a type: a filter, an order, a section, the attributes to load and
how far to resolve references. It is run against the store of a session.

A subtype shares its collection with its parent, so its selections also ask for its class and the
classes below it.

## Main definitions

* `Selection` and the operations that refine one;
* `Selection.toQuery` is the filter document that is sent to the store;
* `Selection.all`, `first`, `get`, `count` and `update` run a selection.
-/

namespace DocumentMapper

open Text

/-- What maps documents: the known types and the settings. -/
structure Mapper where
  catalog : Catalog
  settings : Settings

/-- A description of some documents of a type. -/
structure Selection where
  type : DocumentType
  filter : Filter
  /-- The paths to sort by. A leading minus sign asks for descending order. -/
  order : List String
  /-- The paths to load; all if there is none. -/
  only : List String
  skip : Nat
  limit : Option Nat
  /-- How many hops to resolve references, if that is said. -/
  hops : Option Nat

/-- A new document of a known type. -/
def Mapper.document (m : Mapper) (typeName : String) : Except Error Document :=
  (m.catalog.get typeName).map Document.new

/-- The selection of all documents of a known type that is stored by itself. -/
def Mapper.objects (m : Mapper) (typeName : String) : Except Error Selection := do
  let type ← m.catalog.get typeName
  if type.isEmbedded then throw (.operation (.queryEmbedded typeName))
  else return ⟨type, .empty, [], [], 0, none, none⟩

namespace Selection

/-- The documents that also meet a filter. -/
def restrict (q : Selection) (filter : Filter) : Selection :=
  { q with filter := q.filter.and filter }

/-- The document with a primary key. There must be no other filter. -/
def withKey (q : Selection) (key : Value) : Except QueryError Selection :=
  if q.filter.isEmpty then return { q with filter := .leaf [("pk", key)] } else throw .filterWithId

/-- The class names of the type and its subtypes. -/
def classNames (c : Catalog) (t : DocumentType) : List String :=
  t.className :: (c.subtypesOf t).map (·.className)

/-- The filter document that is sent to the store. -/
def toQuery (m : Mapper) (q : Selection) : Drawing Object := do
  let query ← q.filter.toQuery m.catalog q.type
  if q.type.superclass.isSome && !query.contains classKey then
    let classes := (classNames m.catalog q.type).map Json.string
    return query.insert classKey (.single "$in" (.array classes))
  else return query

/-- The path in the store of a path to sort by or to load. Dots and double underscores separate its
segments alike. -/
def storedPath (m : Mapper) (q : Selection) (path : String) : Except Error String :=
  let segments := keywordSegments (joinStrings "__" (dottedSegments path))
  match m.catalog.resolve q.type segments with
  | .ok elements => return storagePath elements
  | .error cause => throw (.invalidQuery (.selection cause))

/-- The path of a sort key, and whether the order is ascending. -/
def readOrder (key : String) : String × Bool :=
  match dropStart? "-" key with
  | some path => (path, false)
  | none => ((dropStart? "+" key).getD key, true)

/-- The order, the section and the paths to load, as the store takes them. -/
def findOptions (m : Mapper) (q : Selection) : Except Error FindOptions := do
  let sort ← q.order.mapM fun key => do
    let (path, ascending) := readOrder key
    return (← q.storedPath m path, ascending)
  let paths ← q.only.mapM (q.storedPath m)
  let projection : Object := paths.foldl (fun acc path => acc.insert path (Json.ofNat 1)) []
  return {
    projection := if paths.isEmpty then none else some projection
    sort
    limit := q.limit
    skip := q.skip }

/-- How many hops references are resolved. -/
def resolvedHops (m : Mapper) (q : Selection) : Nat :=
  q.hops.getD (if m.settings.autoDereference then m.settings.maxDepth else 0)

/-- The collection of the type. -/
def collection (q : Selection) : String :=
  q.type.collection.getD ""

/-- Loads the selected documents. -/
def all (m : Mapper) (q : Selection) : Work (List Document) := do
  let query ← Work.drawing (q.toQuery m)
  let options ← Work.ofExcept (q.findOptions m)
  let raws ← Work.ask fun store => store.find q.collection query options
  let docs := raws.map fun raw =>
    Document.ofStorage m.catalog (m.catalog.concreteType q.type raw) raw
  Work.onStore (resolveDocuments m.catalog (q.resolvedHops m) docs)

/-- Loads the first selected document. -/
def first (m : Mapper) (q : Selection) : Work (Option Document) := do
  return (← { q with limit := some 1 }.all m).head?

/-- Loads the only selected document. -/
def get (m : Mapper) (q : Selection) : Work Document := do
  match ← q.all m with
  | [] => throw (.doesNotExist q.type.name)
  | [doc] => return doc
  | docs => throw (.multipleFound docs.length)

/-- Counts the documents that meet the filter. -/
def count (m : Mapper) (q : Selection) : Work Nat := do
  let query ← Work.drawing (q.toQuery m)
  Work.ask fun store => store.count q.collection query

/-- Updates the documents that meet the filter. -/
def update (m : Mapper) (q : Selection) (operations : Conditions) : Work UpdateResult := do
  let query ← Work.drawing (q.toQuery m)
  let update ← Work.drawing (compileUpdate m.catalog q.type operations)
  if update.isEmpty then throw (.invalidQuery .emptyUpdate)
  else Work.change fun store => store.update q.collection query update ⟨false, true⟩

end Selection

/-- Resolves the references of loaded documents. -/
def Mapper.dereference (m : Mapper) (hops : Nat) (docs : List Document) : Work (List Document) :=
  Work.onStore (resolveDocuments m.catalog hops docs)

/-- Resolves the references of some values. -/
def Mapper.resolve (m : Mapper) (hops : Nat) (values : List Value) : Work (List Value) :=
  Work.onStore (resolveValues m.catalog hops values)

end DocumentMapper
