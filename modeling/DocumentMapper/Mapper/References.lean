import DocumentMapper.Sorting
import DocumentMapper.Storage.Decoding
import DocumentMapper.Store.Basic

/-!
# Resolving references

Resolving replaces references by the documents that they lead to, up to a number of hops. It works
in rounds. A round gathers the references of the values at hand, fetches what they point to with one
lookup per collection, and hands the fetched documents to the next round. No document is asked for
twice. When the rounds are over, the documents are put in place of their references.

A reference stays as it is if its document does not exist, if its type cannot be located, if it is
out of reach, or if it leads back to a document that is just being completed.

## Main definitions

* `Value.references` are the references of a value;
* `Resolution` is what the rounds have fetched so far, `Resolution.rounds` runs them;
* `Linking` puts documents in place of references;
* `resolveValues` and `resolveDocuments` do all of it.
-/

namespace DocumentMapper

/-- A collection and the text of an id in it. -/
abbrev ObjectKey := String × String

/-! ### References of values -/

mutual

/-- The references in a value, in order. Documents behind links are not looked into. -/
def Value.references : Value → List Reference
  | .reference r => [r]
  | .list items => referencesOfItems items
  | .dict entries => referencesOfEntries entries
  | .document doc => doc.references
  | _ => []
termination_by structural v => v

/-- The references in some values. -/
def referencesOfItems : List Value → List Reference
  | [] => []
  | v :: vs => v.references ++ referencesOfItems vs
termination_by structural vs => vs

/-- The references in some entries. -/
def referencesOfEntries : List (String × Value) → List Reference
  | [] => []
  | (_, v) :: rest => v.references ++ referencesOfEntries rest
termination_by structural es => es

/-- The references in a document. -/
def Document.references : Document → List Reference
  | ⟨_, values, _, _⟩ => referencesOfEntries values
termination_by structural d => d

end

/-- The collection that a reference points to and the type that is expected there. A reference to an
embedded type, or to a collection of no known type, points nowhere. -/
def Catalog.locate (c : Catalog) (r : Reference) :
    Except Error (Option (String × DocumentType)) :=
  match r.target with
  | .type name => do
    let t ← c.get name
    return t.collection.map fun collection => (collection, t)
  | .collection name className =>
    return ((className.bind c.byClassName?).or (c.forCollection? name)).map fun t => (name, t)

/-- The key of the document that a reference points to. -/
def Catalog.objectKey? (c : Catalog) (r : Reference) : Option ObjectKey :=
  match r.target with
  | .type name => ((c.get? name).bind (·.collection)).map fun collection => (collection, r.id.text)
  | .collection name _ => some (name, r.id.text)

/-! ### Rounds -/

/-- What to fetch from a collection: distinct ids, and the type that the first of them expects. -/
structure Wanted where
  declared : DocumentType
  ids : List Json

/-- Adds an id, unless one of the same text is there. -/
def Wanted.add (w : Wanted) (id : Json) : Wanted :=
  if w.ids.any fun present => present.text == id.text then w else { w with ids := w.ids ++ [id] }

/-- A fetched document, and how many hops may follow it. -/
structure Fetched where
  doc : Document
  hopsLeft : Nat

/-- What was asked for and what was found so far. -/
structure Resolution where
  requested : List ObjectKey
  found : List (ObjectKey × Fetched)

namespace Resolution

/-- Nothing asked for yet. -/
def empty : Resolution := ⟨[], []⟩

/-- Adds the targets of some references that were not asked for yet, collection by collection. -/
def gather (c : Catalog) (state : Resolution) :
    List Reference → Entries Wanted → Except Error (Entries Wanted)
  | [], wanted => return wanted
  | r :: rest, wanted => do
    match ← c.locate r with
    | none => state.gather c rest wanted
    | some (collection, declared) =>
      if state.requested.contains (collection, r.id.text) then state.gather c rest wanted
      else
        let target := (wanted.get? collection).getD ⟨declared, []⟩
        state.gather c rest (wanted.insertSorted collection (target.add r.id))

/-- Takes over the fetched documents of a collection. The keys under which they are found are
returned. -/
def accept (c : Catalog) (collection : String) (declared : DocumentType) (hopsLeft : Nat) :
    List Object → Resolution → List ObjectKey × Resolution
  | [], state => ([], state)
  | raw :: rest, state =>
    match raw.get? idKey with
    | none => accept c collection declared hopsLeft rest state
    | some id =>
      let key := (collection, id.text)
      let doc := Document.ofStorage c (c.concreteType declared raw) raw
      let state := { state with
        found := (key, ⟨doc, hopsLeft⟩) :: state.found.filter fun e => e.1 != key }
      let (keys, state) := accept c collection declared hopsLeft rest state
      (key :: keys, state)

/-- Fetches what is wanted, collection by collection. The keys of what is found are returned. -/
def fetchAll (c : Catalog) (hopsLeft : Nat) :
    List (String × Wanted) → Resolution → Store → List ObjectKey × Resolution × Store
  | [], state, store => ([], state, store)
  | (collection, wanted) :: rest, state, store =>
    let state := { state with
      requested := state.requested ++ wanted.ids.map fun id => (collection, id.text) }
    let (raws, store) := store.fetch collection wanted.ids
    let (keys, state) := accept c collection wanted.declared hopsLeft raws state
    let (more, state, store) := fetchAll c hopsLeft rest state store
    (keys ++ more, state, store)

/-- The references of the documents found under some keys. -/
def referencesOf (state : Resolution) (keys : List ObjectKey) : List Reference :=
  keys.flatMap fun key => ((state.found.lookup key).map fun f => f.doc.references).getD []

/-- Runs as many rounds as there are hops, or until nothing is wanted. -/
def rounds (c : Catalog) :
    Nat → Entries Wanted → Resolution → Store → Except Error Resolution × Store
  | 0, _, state, store => (.ok state, store)
  | hopsLeft + 1, wanted, state, store =>
    if wanted.isEmpty then (.ok state, store)
    else
      let (keys, state, store) := fetchAll c hopsLeft wanted state store
      if hopsLeft = 0 then (.ok state, store)
      else
        match state.gather c (state.referencesOf keys) [] with
        | .ok next => rounds c hopsLeft next state store
        | .error cause => (.error cause, store)

/-- Fetches everything within some hops of the given references. -/
def fetchFrom (c : Catalog) (hops : Nat) (references : List Reference) (store : Store) :
    Except Error Resolution × Store :=
  match empty.gather c references [] with
  | .ok wanted => rounds c hops wanted empty store
  | .error cause => (.error cause, store)

end Resolution

/-! ### Putting documents in place -/

/-- The fetched documents that are not yet completed, and the completed ones. -/
structure Linking where
  found : List (ObjectKey × Fetched)
  linked : List (ObjectKey × Document)

/-- Finds the completed document of a key. -/
abbrev Link := ObjectKey → StateM Linking (Option Document)

mutual

/-- The value with documents in place of its references. -/
def Value.attach (c : Catalog) (link : Link) : Value → StateM Linking Value
  | .reference r =>
    match c.objectKey? r with
    | none => return .reference r
    | some key => do
      match ← link key with
      | some doc => return .linked doc
      | none => return .reference r
  | .list items => do return .list (← attachItems c link items)
  | .dict entries => do return .dict (← attachEntries c link entries)
  | .document doc => do return .document (← doc.attach c link)
  | v => return v
termination_by structural v => v

/-- Some values with documents in place of their references. -/
def attachItems (c : Catalog) (link : Link) : List Value → StateM Linking (List Value)
  | [] => return []
  | v :: vs => do return (← v.attach c link) :: (← attachItems c link vs)
termination_by structural vs => vs

/-- Some entries with documents in place of their references. -/
def attachEntries (c : Catalog) (link : Link) :
    List (String × Value) → StateM Linking (List (String × Value))
  | [] => return []
  | (k, v) :: rest => do return (k, ← v.attach c link) :: (← attachEntries c link rest)
termination_by structural es => es

/-- The document with documents in place of its references. -/
def Document.attach (c : Catalog) (link : Link) : Document → StateM Linking Document
  | ⟨type, values, dirty, raw⟩ => do return ⟨type, ← attachEntries c link values, dirty, raw⟩
termination_by structural d => d

end

namespace Linking

/-- Takes the fetched document of a key out, so that it is completed only once. -/
def take (key : ObjectKey) : StateM Linking (Option Fetched) :=
  modifyGet fun s =>
    (s.found.lookup key, { s with found := s.found.filter fun e => e.1 != key })

/-- Finds the completed document of a key, or completes it. Each completion takes one document out,
so that as many levels are enough as there are fetched documents. -/
def link (c : Catalog) : Nat → Link
  | 0, key => return (← get).linked.lookup key
  | levels + 1, key => do
    match (← get).linked.lookup key with
    | some doc => return some doc
    | none =>
      match ← take key with
      | none => return none
      | some fetched =>
        let doc ←
          if fetched.hopsLeft = 0 then pure fetched.doc
          else fetched.doc.attach c (link c levels)
        modify fun s => { s with linked := (key, doc) :: s.linked }
        return some doc

end Linking

/-- Runs a replacement of references by the documents of a resolution. -/
def Resolution.attachAll {α : Type} (c : Catalog) (state : Resolution)
    (attach : Link → StateM Linking α) : α :=
  ((attach (Linking.link c state.found.length)).run ⟨state.found, []⟩).1

/-- Some values with the documents within some hops in place of their references. -/
def resolveValues (c : Catalog) (hops : Nat) (values : List Value) (store : Store) :
    Except Error (List Value) × Store :=
  if hops = 0 then (.ok values, store)
  else
    let (result, store) := Resolution.fetchFrom c hops (referencesOfItems values) store
    (result.map fun state => state.attachAll c fun link => attachItems c link values, store)

/-- Some documents with the documents within some hops in place of their references. -/
def resolveDocuments (c : Catalog) (hops : Nat) (docs : List Document) (store : Store) :
    Except Error (List Document) × Store :=
  if hops = 0 then (.ok docs, store)
  else
    let (result, store) := Resolution.fetchFrom c hops (docs.flatMap (·.references)) store
    (result.map fun state => state.attachAll c fun link => docs.mapM fun doc => doc.attach c link,
      store)

end DocumentMapper
