import DocumentMapper.Document.Basic
import DocumentMapper.Sorting
import DocumentMapper.Value.Display

/-!
# Views into documents

A view gives access to a list, a dict or an embedded document inside a value, and records what it
changes. A list or dict view carries the changed paths of the document that it belongs to and the
path that leads to it; without such a record its changes are not noted anywhere. An embedded
document records its own changes.

Assigning one item or key marks that part. Any other change of a list or dict marks it as a whole.

To look at a part of a value, `Value.visit` follows steps from view to view, hands the last view to
a `Visitor` and puts back what the visitor leaves. Entering an attribute that is declared as a list
or a dict and has no value creates an empty one.

## Main definitions

* `ListView` and `DictView`, with the operations on them;
* `Visitor`, `Value.visit`, `Document.visit`;
* `Document.enter` opens an attribute for a visit.
-/

namespace DocumentMapper

/-! ### Lists -/

/-- A list in a document. -/
structure ListView where
  items : List Value
  /-- The changed paths of the document it belongs to. -/
  record : Option DirtyPaths
  /-- The path that leads to the list. -/
  path : String

namespace ListView

/-- The view with other items, marked as changed as a whole. -/
def replaceItems (l : ListView) (items : List Value) : ListView :=
  { l with items, record := l.record.map (·.mark l.path) }

/-- Assigns an existing item. -/
def set (l : ListView) (i : Nat) (v : Value) : Except UsageError ListView :=
  if i < l.items.length then
    return { l with
      items := l.items.set i v
      record := l.record.map (·.mark (l.path ++ "." ++ toString i)) }
  else throw (.assignIndex i l.items.length)

/-- Removes an item, which is returned. -/
def removeAt (l : ListView) (i : Nat) : Except UsageError (Value × ListView) :=
  match l.items[i]? with
  | some v => return (v, l.replaceItems (l.items.eraseIdx i))
  | none => throw (.outside i)

/-- Adds an item at the end. -/
def push (l : ListView) (v : Value) : ListView :=
  l.replaceItems (l.items ++ [v])

/-- Adds several items at the end. -/
def extend (l : ListView) (vs : List Value) : ListView :=
  l.replaceItems (l.items ++ vs)

/-- Adds an item at a position, or at the end if that is beyond it. -/
def insert (l : ListView) (i : Nat) (v : Value) : ListView :=
  l.replaceItems (l.items.insertIdx (min i l.items.length) v)

/-- Removes the last item, which is returned. -/
def pop (l : ListView) : Option Value × ListView :=
  match l.items.getLast? with
  | some v => (some v, l.replaceItems l.items.dropLast)
  | none => (none, l)

/-- Removes the first item that is equal to a value. -/
def remove (l : ListView) (v : Value) : Except UsageError (Value × ListView) :=
  match l.items.findIdx? fun item => item.equal v with
  | some i => l.removeAt i
  | none => throw (.notInList v.display)

/-- Sorts the items; `before x y` says that `x` has to precede `y`. -/
def sortBy (l : ListView) (before : Value → Value → Bool) : ListView :=
  l.replaceItems (stableSort before l.items)

/-- Reverses the items. -/
def reverse (l : ListView) : ListView :=
  l.replaceItems l.items.reverse

/-- Keeps the items that meet a condition. -/
def retain (l : ListView) (keep : Value → Bool) : ListView :=
  l.replaceItems (l.items.filter keep)

/-- Removes all items. -/
def clear (l : ListView) : ListView :=
  l.replaceItems []

end ListView

/-- Whether the number of `x` comes before the number of `y`; values that are no numbers come
first. -/
def numberBefore (x y : Value) : Bool :=
  match x.asInt64?, y.asInt64? with
  | some a, some b => a < b
  | none, some _ => true
  | _, none => false

/-- Whether the text of `x` comes before the text of `y`; values that are no texts come first. -/
def textBefore (x y : Value) : Bool :=
  match x.asString?, y.asString? with
  | some a, some b => a < b
  | none, some _ => true
  | _, none => false

/-! ### Dicts -/

/-- A dict in a document. -/
structure DictView where
  entries : Entries Value
  /-- The changed paths of the document it belongs to. -/
  record : Option DirtyPaths
  /-- The path that leads to the dict. -/
  path : String

namespace DictView

/-- The view with a key marked as changed. -/
def markKey (d : DictView) (key : String) : DictView :=
  { d with record := d.record.map (·.mark (d.path ++ "." ++ key)) }

/-- The view with other entries, marked as changed as a whole. -/
def replaceEntries (d : DictView) (entries : Entries Value) : DictView :=
  { d with entries, record := d.record.map (·.mark d.path) }

/-- Assigns a key. The old value is returned. -/
def insert (d : DictView) (key : String) (v : Value) : Option Value × DictView :=
  (d.entries.get? key, { d.markKey key with entries := d.entries.insertSorted key v })

/-- Removes a key. Its value is returned. -/
def remove (d : DictView) (key : String) : Option Value × DictView :=
  match d.entries.get? key with
  | some v => (some v, { d.markKey key with entries := d.entries.erase key })
  | none => (none, d)

/-- Removes the last entry, which is returned. -/
def popItem (d : DictView) : Option (String × Value) × DictView :=
  match d.entries.getLast? with
  | some e => (some e, d.replaceEntries d.entries.dropLast)
  | none => (none, d)

/-- Assigns several keys. -/
def update (d : DictView) (more : List (String × Value)) : DictView :=
  d.replaceEntries (more.foldl (fun acc e => acc.insertSorted e.1 e.2) d.entries)

/-- The value of a key, which is assigned first if it is missing. -/
def setDefault (d : DictView) (key : String) (v : Value) : Value × DictView :=
  match d.entries.get? key with
  | some present => (present, d)
  | none => (v, d.replaceEntries (d.entries.insertSorted key v))

/-- Removes all entries. -/
def clear (d : DictView) : DictView :=
  d.replaceEntries []

end DictView

/-! ### Visits -/

/-- A step from a view to a part of it. -/
inductive ViewStep where
  /-- An item of a list. -/
  | item (i : Nat)
  /-- A key of a dict or an attribute of a document. -/
  | key (name : String)

/-- What is done at the end of the steps, for each kind of view. -/
structure Visitor (α : Type) where
  onList : ListView → α × ListView
  onDict : DictView → α × DictView
  onDocument : Document → α × Document
  onValue : Value → α

/-- What a visit leaves: its result, the value and the changed paths of the document that it belongs
to. There is no result when the steps lead nowhere. -/
structure Visited (α : Type) where
  result : Except PathError (Option α)
  value : Value
  record : Option DirtyPaths

/-- The visit of a value at its very place. -/
def Visitor.visit {α : Type} (w : Visitor α) (v : Value) (record : Option DirtyPaths)
    (path : String) : Visited α :=
  match v with
  | .list items =>
    let (result, l) := w.onList ⟨items, record, path⟩
    ⟨.ok (some result), .list l.items, l.record⟩
  | .dict entries =>
    let (result, d) := w.onDict ⟨entries, record, path⟩
    ⟨.ok (some result), .dict d.entries, d.record⟩
  | .document doc =>
    let (result, d) := w.onDocument doc
    ⟨.ok (some result), .document d, record⟩
  | v => ⟨.ok (some (w.onValue v)), v, record⟩

/-- The empty value that an attribute without value starts with when it is entered. -/
def Kind.emptyContainer? : Kind → Option Value
  | .list _ => some (.list [])
  | .dict _ => some (.dict [])
  | _ => none

namespace Document

/-- The document with a container for the attribute, if it is declared as one and has no value. -/
def withContainer (d : Document) (key : String) : Document :=
  if (Entries.get? d.values key).any fun v => !v.isNull then d
  else
    match (d.type.field? key).bind (·.kind.emptyContainer?) with
    | some container => d.put key container
    | none => d

/-- The document after a visit of an attribute. -/
def afterVisit {α : Type} (d : Document) (key : String) (r : Visited α) : Document :=
  { d with
    values := Entries.modify d.values key fun _ => r.value
    dirty := r.record.getD d.dirty }

end Document

/-- Follows steps into a value and visits what is there. `record` are the changed paths of the
document that the value belongs to, and `path` leads to it. -/
def Value.visit {α : Type} (w : Visitor α) :
    List ViewStep → Value → Option DirtyPaths → String → Visited α
  | [], v, record, path => w.visit v record path
  | .item i :: rest, .list items, record, path =>
    match items[i]? with
    | some v =>
      let r := Value.visit w rest v record (path ++ "." ++ toString i)
      { r with value := .list (items.set i r.value) }
    | none => ⟨.ok none, .list items, record⟩
  | .key name :: rest, .dict entries, record, path =>
    match Entries.get? entries name with
    | some v =>
      let r := Value.visit w rest v record (path ++ "." ++ name)
      { r with value := .dict (Entries.modify entries name fun _ => r.value) }
    | none => ⟨.ok none, .dict entries, record⟩
  | .key name :: rest, .document doc, record, _ =>
    match doc.attributeName name with
    | .ok key =>
      let doc := doc.withContainer key
      let v := (Entries.get? doc.values key).getD .null
      let r := Value.visit w rest v (some doc.dirty) key
      ⟨r.result, .document (doc.afterVisit key r), record⟩
    | .error cause => ⟨.error cause, .document doc, record⟩
  | _ :: _, v, record, _ => ⟨.ok none, v, record⟩

/-- How an attribute is entered. -/
inductive Entrance where
  /-- Whatever it holds. -/
  | field
  /-- As a list, created where there is no value. -/
  | list
  /-- As a dict, created where there is no value. -/
  | dict
  /-- As an embedded document. -/
  | embedded

namespace Document

/-- The document with a container of the wanted kind under an attribute that is declared as one or
as holding anything. -/
def openContainer (d : Document) (key wanted : String) (accepts : Kind → Bool)
    (isWanted : Value → Bool) (container : Value) : Except UsageError Document :=
  if (d.type.describe? key).any fun f => f.kind.isAny || accepts f.kind then
    match Entries.get? d.values key with
    | some v =>
      if v.isNull then return d.put key container
      else if isWanted v then return d
      else throw (.holdsOther key v.typeName ("a " ++ wanted))
    | none => return d.put key container
  else throw (.notDeclared key wanted)

/-- Opens an attribute. The name of the attribute and the document with what was created are
returned. -/
def enter (d : Document) (how : Entrance) (name : String) : Except Error (String × Document) := do
  let key ← (d.attributeName name).mapError .lookup
  let opened : Except UsageError Document :=
    match how with
    | .field => return d.withContainer key
    | .list => d.openContainer key "list" Kind.isList (·.asList?.isSome) (.list [])
    | .dict => d.openContainer key "dict" Kind.isDict (·.asDict?.isSome) (.dict [])
    | .embedded =>
      match Entries.get? d.values key with
      | some (.document _) => return d
      | some v => throw (.holdsOther key v.typeName "an embedded document")
      | none => throw (.notSet key)
  return (key, ← opened.mapError .operation)

/-- Visits an opened attribute. -/
def visit {α : Type} (d : Document) (key : String) (steps : List ViewStep) (w : Visitor α) :
    Except PathError (Option α) × Document :=
  let r := Value.visit w steps ((Entries.get? d.values key).getD .null) (some d.dirty) key
  (r.result, d.afterVisit key r)

end Document

end DocumentMapper
