import DocumentMapper.Error
import DocumentMapper.Json.Printer
import DocumentMapper.Schema.Declaration

/-!
# The store

A store keeps stored documents in named collections, in the order in which they were inserted.
Every document has an id, and the ids of a collection are pairwise different; a document that comes
without one is given a new id. The store also logs the lookups by id, so that one can see how often
references were fetched.

Two ids are the same for an insertion when they are equal values, and for a lookup when they have the
same text.

## Main definitions

* `Store.insert` adds documents, `Store.fetch` looks some up by id;
* `Store.documents` is the content of a collection.
-/

namespace DocumentMapper

/-- The stored id of a document. Null is none. -/
def Object.id? (doc : Object) : Option Json :=
  (doc.get? idKey).filter fun id => !id.isNull

/-- The document with its id in front of the other entries. -/
def Object.withIdFirst (doc : Object) (id : Json) : Object :=
  (idKey, id) :: doc.filter fun e => e.1 ≠ idKey

/-- One lookup by ids. -/
structure Lookup where
  collection : String
  ids : List Json

/-- Collections of documents. -/
structure Store where
  collections : Entries (List Object)
  /-- How many ids were given out. -/
  issued : Nat
  /-- The lookups by id so far. -/
  lookups : List Lookup

namespace Store

/-- The store without documents. -/
def empty : Store := ⟨[], 0, []⟩

instance : Inhabited Store := ⟨empty⟩

/-- The documents of a collection. -/
def documents (s : Store) (collection : String) : List Object :=
  (s.collections.get? collection).getD []

/-- The store with other documents in a collection. -/
def setDocuments (s : Store) (collection : String) (docs : List Object) : Store :=
  { s with collections := s.collections.insert collection docs }

/-- The `n`-th id that is given out, counted from zero. -/
def madeId (n : Nat) : Json :=
  .string ("<id-" ++ toString (n + 1) ++ ">")

/-- Gives out a new id. -/
def issue (s : Store) : Json × Store :=
  (madeId s.issued, { s with issued := s.issued + 1 })

/-- Whether a document with an equal id is in the collection. -/
def hasId (s : Store) (collection : String) (id : Json) : Bool :=
  (s.documents collection).any fun doc => (doc.get? idKey).any fun present => present.equal id

/-- Adds a document at the end of a collection. -/
def append (s : Store) (collection : String) (doc : Object) : Store :=
  s.setDocuments collection (s.documents collection ++ [doc])

/-- Adds a document at the end of a collection, if its id is new there. -/
def appendNew (s : Store) (collection : String) (id : Json) (doc : Object) :
    Except StoreError Store :=
  if s.hasId collection id then throw (.duplicateKey id.text)
  else return s.append collection doc

/-- Inserts documents one after the other; their ids are returned. Those in front of one that is
refused stay inserted. -/
def insert (collection : String) : List Object → Store → Except StoreError (List Json) × Store
  | [], s => (.ok [], s)
  | doc :: rest, s =>
    let (id, doc, s) :=
      match doc.id? with
      | some id => (id, doc, s)
      | none =>
        let (id, s) := s.issue
        (id, doc.withIdFirst id, s)
    match s.appendNew collection id doc with
    | .ok s =>
      let (ids, s) := insert collection rest s
      (ids.map (id :: ·), s)
    | .error cause => (.error cause, s)

/-- Looks up documents by their ids. Ids without a document are passed over. -/
def fetch (collection : String) (ids : List Json) (s : Store) : List Object × Store :=
  let wanted := ids.map Json.text
  ((s.documents collection).filter fun doc =>
      (doc.get? idKey).any fun id => wanted.contains id.text,
    { s with lookups := s.lookups ++ [⟨collection, ids⟩] })

/-- Forgets the lookups. -/
def forgetLookups (s : Store) : Store :=
  { s with lookups := [] }

end Store

end DocumentMapper
