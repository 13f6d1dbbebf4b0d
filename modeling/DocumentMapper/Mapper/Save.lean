import DocumentMapper.Document.Basic
import DocumentMapper.Document.Changes
import DocumentMapper.Document.Defaults
import DocumentMapper.Document.Validation
import DocumentMapper.Mapper.Session
import DocumentMapper.Storage.Decoding

/-!
# Saving documents

A new document first takes its defaults. Then it is validated and inserted as a whole, and gets the
id that the store made up if it had no primary key. A document that was loaded or saved before sends
only the patch of what changed, to the stored document with its primary key; an empty patch is not
sent. After a successful save nothing counts as changed.

A save that fails leaves the document as it was, apart from the defaults that a new one has taken.
-/

namespace DocumentMapper

/-- The attribute value of the id that the store answered with. -/
def Document.keyFromStore (c : Catalog) (d : Document) (id : Json) : Value :=
  match d.type.primaryKeyField? with
  | some f => f.decode c id
  | none => .ofJson id

/-- Inserts a new document. -/
def Document.insertInto (c : Catalog) (d : Document) (collection : String) : Work Document := do
  .ofExcept d.validate
  let raw ← Work.drawing d.toStorage
  match ← Work.change (Store.insert collection [raw]) with
  | [] => return d
  | id :: _ =>
    let d ←
      match d.primaryKey? with
      | some _ => pure d
      | none => Work.ofExcept ((d.setKey (d.keyFromStore c id)).mapError .operation)
    return d.persisted (raw.insert idKey id)

/-- Sends what changed in a document to the store. -/
def Document.updateIn (d : Document) (collection : String) : Work Document := do
  .ofExcept d.validate
  let patch ← Work.drawing d.incrementalPatch
  if patch.isEmpty then return d
  else
    let id ← Work.drawing d.keyJson
    let _ ← Work.change fun store =>
      store.update collection [(idKey, id)] patch.toUpdate ⟨false, false⟩
    return d.persisted (← Work.drawing d.toStorage)

/-- Saves a document. It is returned with what the save did to it, also after a failure. -/
def Document.save (c : Catalog) (d : Document) (s : Session) :
    Document × Except Error Unit × Session :=
  match d.type.collection with
  | none => (d, .error (.operation (.saveEmbedded d.type.name)), s)
  | some collection =>
    let (started, s) :=
      if d.isNew then (Work.drawing d.completed).runFrom s else (.ok d, s)
    let d := started.toOption.getD d
    match (if d.isNew then d.insertInto c collection else d.updateIn collection).runFrom s with
    | (.ok saved, s) => (saved, .ok (), s)
    | (.error cause, s) => (d, .error cause, s)

end DocumentMapper
