import DocumentMapper.Store.Find
import DocumentMapper.Update.Application

/-!
# Updating collections

An update changes the first document of a collection that meets a filter, or all of them. Each
document is changed as a whole or not at all: when one fails, the update ends, and those before it
stay changed.

When no document meets the filter, an update can insert one instead. It starts from the values that
the filter demands to be equal, and the update is applied to it.

## Main definitions

* `seedOf` is the document that a filter demands;
* `Store.update` updates a collection.
-/

namespace DocumentMapper

/-- How far an update goes. -/
structure UpdateOptions where
  /-- Inserts a document if none meets the filter. -/
  upsert : Bool
  /-- Changes all documents that meet the filter and not only the first. -/
  multi : Bool

/-- What an update did. -/
structure UpdateResult where
  matched : Nat
  modified : Nat
  /-- The id of an inserted document. -/
  upserted : Option Json

/-- The value that a condition demands to be equal, if it does. -/
def demandedValue? : Json → Option Json
  | .object entries =>
    if entries.any fun e => Text.beginsWith "$" e.1 then Entries.get? entries "$eq"
    else some (.object entries)
  | v => some v

/-- The document that a filter demands. -/
def seedOf (filter : Object) : Object :=
  filter.foldl
    (fun seed e =>
      if Text.beginsWith "$" e.1 then seed
      else
        match demandedValue? e.2 with
        | some v => Object.place seed e.1 v
        | none => seed)
    []

/-- How many documents met a filter and how many of them changed. -/
structure Tally where
  matched : Nat
  modified : Nat

/-- Changes the documents of a list that meet a filter. -/
def changeMeeting (filter update : Object) (multi : Bool) :
    List Object → Tally → Except StoreError Tally × List Object
  | [], tally => (.ok tally, [])
  | doc :: rest, tally =>
    match doc.meets filter with
    | .error cause => (.error cause, doc :: rest)
    | .ok false =>
      let (result, rest) := changeMeeting filter update multi rest tally
      (result, doc :: rest)
    | .ok true =>
      let applied := doc.apply filter update false
      match applied.result doc with
      | .error cause => (.error cause, doc :: rest)
      | .ok changed =>
        let doc := if changed then applied.doc else doc
        let tally : Tally := ⟨tally.matched + 1, tally.modified + (if changed then 1 else 0)⟩
        if multi then
          let (result, rest) := changeMeeting filter update multi rest tally
          (result, doc :: rest)
        else (.ok tally, doc :: rest)

namespace Store

/-- Inserts the document that a filter demands, changed by an update. -/
def upsert (s : Store) (collection : String) (filter update : Object) :
    Except StoreError UpdateResult × Store :=
  let seed := seedOf filter
  let applied := seed.apply filter update true
  match applied.failure with
  | some cause => (.error cause, s)
  | none =>
    let (id, s) :=
      match applied.doc.id? with
      | some id => (id, s)
      | none => s.issue
    match s.appendNew collection id (applied.doc.withIdFirst id) with
    | .ok s => (.ok ⟨0, 0, some id⟩, s)
    | .error cause => (.error cause, s)

/-- Updates a collection. -/
def update (s : Store) (collection : String) (filter update : Object) (options : UpdateOptions) :
    Except StoreError UpdateResult × Store :=
  let (result, docs) := changeMeeting filter update options.multi (s.documents collection) ⟨0, 0⟩
  let s := s.setDocuments collection docs
  match result with
  | .error cause => (.error cause, s)
  | .ok tally =>
    if tally.matched = 0 && options.upsert then s.upsert collection filter update
    else (.ok ⟨tally.matched, tally.modified, none⟩, s)

end Store

end DocumentMapper
