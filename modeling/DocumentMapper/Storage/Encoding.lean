import DocumentMapper.Schema.Declaration
import DocumentMapper.Storage.Supply
import DocumentMapper.Value.Display

/-!
# Stored forms

How values become stored values. `Value.plain` encodes a value on its own; `Value.encode` encodes
it for a field, which can refuse it. The stored form of a document is assembled field by field:
`Document.fullPatch` says which storage names are set and which are null. A field without a value
takes its default, so encoding a document can draw from generators.

Each value of a document is first turned into its encoder, a function of the field that describes
it. The type then picks the encoders in the order of its fields. This makes encoding a recursion
over the value.

## Main definitions

* `Field.check` runs the validator of a field;
* `Field.encodeLeaf` encodes a value without parts;
* `Value.plain`, `Value.encode`, `Document.fullPatch`, `Document.keyJson` and
  `Document.toStorage` encode values and documents.
-/

namespace DocumentMapper

open Number Time

/-- A change of a stored document: storage names to set and storage names to remove. -/
structure Patch where
  sets : Object
  unsets : Object

namespace Patch

/-- The patch without entries. -/
def empty : Patch := ⟨[], []⟩

instance : Inhabited Patch := ⟨empty⟩

/-- Whether the patch changes nothing. -/
def isEmpty (p : Patch) : Bool :=
  p.sets.isEmpty && p.unsets.isEmpty

/-- The patch with one more storage name; null removes it. -/
def put (p : Patch) (key : String) (encoded : Json) : Patch :=
  if encoded.isNull then { p with unsets := p.unsets.insert key (Json.ofNat 1) }
  else { p with sets := p.sets.insert key encoded }

/-- The patch as an update document, without empty sides. -/
def toUpdate (p : Patch) : Object :=
  (if p.sets.isEmpty then [] else [("$set", .object p.sets)])
    ++ (if p.unsets.isEmpty then [] else [("$unset", .object p.unsets)])

end Patch

/-- Turns a value into its stored form for a field. -/
abbrev Encoder := Field → Drawing Json

/-! ### Rules of fields -/

namespace Validator

/-- What a rule has against a value. -/
def objection? (rule : Validator) (v : Value) : Option ValueError :=
  (rule.against v.reading).map .rule

/-- Numbers from zero on. -/
def nonNegative : Validator where
  against
    | .int n => if n < 0 then some "must not be negative" else none
    | .float x => if x.isNonNegative then none else some "must not be negative"
    | _ => some "must not be negative"

/-- No empty text, list or dict. -/
def nonEmpty : Validator where
  against
    | .string s => if s.isEmpty then some "must not be empty" else none
    | .list items => if items.isEmpty then some "must not be empty" else none
    | .dict entries => if entries.isEmpty then some "must not be empty" else none
    | _ => none

/-- Nothing. -/
def reject : Validator where
  against v := some ("rejected " ++ v.display)

end Validator

namespace Field

/-- The failure of a field. -/
def refuse {α : Type} (f : Field) (cause : ValueError) : Drawing α :=
  throw (.validation f.name cause)

/-- Runs the validator. -/
def check (f : Field) (v : Value) : Drawing Unit :=
  match f.validator.bind (·.objection? v) with
  | some cause => f.refuse cause
  | none => return ()

/-- The failure of a scalar field on a value of another kind. -/
def mismatch {α : Type} (f : Field) (s : Scalar) (v : Value) : Drawing α :=
  f.refuse (.notScalar v.typeName s.name)

/-- The failure of a field that needs a reference with its collection. -/
def unqualified {α : Type} (f : Field) (v : Value) : Drawing α :=
  f.refuse (.notQualified v.typeName)

end Field

/-- The stored form of a generic reference: its class if known, then collection and id. -/
def genericEnvelope (collection : String) (className : Option String) (id : Json) : Json :=
  let inner : String × Json := ("_ref", Reference.pair collection id)
  match className with
  | some c => .object [(classKey, .string c), inner]
  | none => .object [inner]

/-- The stored form of a geometry given by its coordinates. -/
def geometry (type : String) (coordinates : Json) : Json :=
  .object [("type", .string type), ("coordinates", coordinates)]

/-! ### Values without parts -/

/-- A binary64 value as a stored number. -/
def Number.Double.toJson (x : Double) : Drawing Json :=
  match x with
  | .finite y => return .float y
  | _ => throw (.float (x.text Layout.display))

/-- A reference on its own: with its collection where that is known, else the bare id. -/
def Reference.toJson (r : Reference) : Json :=
  match r.target with
  | .collection name _ => Reference.pair name r.id
  | .type _ => r.id

/-- The stored form of a value without parts. Values with parts have null here. -/
def Value.leafJson : Value → Drawing Json
  | .bool b => return .bool b
  | .int n => return .ofInt64 n
  | .float x => x.toJson
  | .string s => return .string s
  | .datetime i => return .string i.text
  | .reference r => return r.toJson
  | _ => return .null

namespace Field

/-- A value without parts in a scalar field. -/
def encodeScalar (f : Field) (s : Scalar) (v : Value) : Drawing Json :=
  match s, v with
  | .any, _ => v.leafJson
  | .string, .string t => return .string t
  | .int, .int n => return .ofInt64 n
  | .int, .float x => if x.isWhole then return .ofInt64 x.toInt64 else f.mismatch s v
  | .float, .int n => (Double.ofInt n.toInt).toJson
  | .float, .float x => x.toJson
  | .bool, .bool b => return .bool b
  | .datetime, .datetime i => return .string i.text
  | .datetime, .string t =>
    match Instant.read? t with
    | some i => return .string i.text
    | none => f.refuse (.notDatetime t)
  | .objectId, .string t => return .string t
  | .objectId, .int n => return .ofInt64 n
  | _, _ => f.mismatch s v

/-- The id of a value without parts in a reference field. -/
def encodeId (f : Field) (v : Value) : Drawing Json :=
  match v with
  | .reference r => return r.id
  | .string t => return .string t
  | .int n => return .ofInt64 n
  | _ => f.refuse (.notReference v.typeName)

/-- A value without parts in a field of references to any type. -/
def encodeGeneric (f : Field) (v : Value) : Drawing Json :=
  match v with
  | .reference ⟨.collection name className, id⟩ => return genericEnvelope name className id
  | _ => f.unqualified v

/-- A value without parts in a field of any kind. -/
def encodeLeaf (f : Field) (v : Value) : Drawing Json := do
  f.check v
  match f.kind with
  | .scalar s => f.encodeScalar s v
  | .embedded _ => f.refuse (.notEmbedded v.typeName)
  | .reference _ => f.encodeId v
  | .genericReference => f.encodeGeneric v
  | .list _ => f.refuse (.notList v.typeName)
  | .dict _ => f.refuse (.notDict v.typeName)

/-- Whether a dict key cannot be stored: it would read as a path or an operator. -/
def isBadKey (key : String) : Bool :=
  Text.hasChar '.' key || Text.beginsWith "$" key

end Field

/-- The encoder of an attribute. -/
def encoderOf (encoders : List (String × Encoder)) (name : String) : Option Encoder :=
  Entries.get? encoders name

/-- Adds the attributes that a type does not declare. -/
def addUndeclared (fields : List Field) : List (String × Encoder) → Patch → Drawing Patch
  | [], p => return p
  | (name, encode) :: rest, p => do
    if fields.any fun f => f.name == name then addUndeclared fields rest p
    else addUndeclared fields rest (p.put name (← encode (.any name)))

/-- The stored form of the primary key of a document of the type, null where it has no value. -/
def DocumentType.keyFrom (t : DocumentType) (encoders : List (String × Encoder)) : Drawing Json :=
  match t.primaryKeyField? with
  | some f =>
    match encoderOf encoders f.name with
    | some encode => encode f
    | none => return .null
  | none => return .null

/-- A linked document on its own: its key, with the collection if it has one. -/
def DocumentType.linkJson (t : DocumentType) (key : Drawing Json) : Drawing Json := do
  let id ← key
  match t.collection with
  | some collection => return Reference.pair collection id
  | none => return id

/-- The key of a document that a field refers to. -/
def Field.linkId (f : Field) (key : Drawing Json) : Drawing Json := do
  let id ← key
  if id.isNull then f.refuse .unsaved else return id

/-- The collection and the key of a document that a field refers to. -/
def Field.linkParts (f : Field) (t : DocumentType) (key : Drawing Json) :
    Drawing (String × Json) :=
  match t.collection with
  | some collection => do return (collection, ← f.linkId key)
  | none => f.refuse .embeddedTarget

/-- The reference, with collection and class, to a document that a field refers to. -/
def Field.linkEnvelope (f : Field) (t : DocumentType) (key : Drawing Json) : Drawing Json := do
  let (collection, id) ← f.linkParts t key
  return genericEnvelope collection (some t.className) id

/-- The patch that a document starts with: the class of a polymorphic one. -/
def classPatch (isPolymorphic : Bool) (className : String) : Patch :=
  if isPolymorphic then ⟨[(classKey, .string className)], []⟩ else .empty

/-! ### Values with parts -/

mutual

/-- The stored form of a value on its own. -/
def Value.plain : Value → Drawing Json
  | .list items => do return .array (← plainItems items)
  | .dict entries => do return .object (← plainEntries entries)
  | .document doc => do return .object (← doc.fullPatch).sets
  | .linked doc => doc.type.linkJson doc.keyJson
  | v => v.leafJson
termination_by structural v => v

/-- The stored forms of some values. -/
def plainItems : List Value → Drawing (List Json)
  | [] => return []
  | v :: vs => do return (← v.plain) :: (← plainItems vs)
termination_by structural vs => vs

/-- The stored forms of some entries. -/
def plainEntries : List (String × Value) → Drawing Object
  | [] => return []
  | (k, v) :: rest => do return (k, ← v.plain) :: (← plainEntries rest)
termination_by structural es => es

/-- The stored form of a value for a field. Null is stored as null whatever the field. -/
def Value.encode : Value → Field → Drawing Json
  | .null, _ => return .null
  | .list items, f => do
    f.check (.list items)
    match f.kind with
    | .scalar s =>
      if s = .any then return .array (← plainItems items)
      else if s = .geoPoint then
        if items.length = 2 ∧ items.all fun v => v.asDouble?.isSome then
          return .array (← plainItems items)
        else f.refuse .notPair
      else
        match s.geoJsonType? with
        | some type => return geometry type (.array (← plainItems items))
        | none => f.mismatch s (.list items)
    | .list element => return .array (← encodeItems items element)
    | .embedded _ => f.refuse (.notEmbedded "list")
    | .reference _ => f.refuse (.notReference "list")
    | .genericReference => f.unqualified (.list items)
    | .dict _ => f.refuse (.notDict "list")
  | .dict entries, f => do
    f.check (.dict entries)
    match f.kind with
    | .scalar s =>
      if s = .any then return .object (← plainEntries entries)
      else if s.geoJsonType?.isSome then
        if Entries.contains entries "type" ∧ Entries.contains entries "coordinates" then
          return .object (← plainEntries entries)
        else f.refuse .notGeometry
      else f.mismatch s (.dict entries)
    | .dict element => return .object (← encodeEntries entries f element)
    | .embedded _ => return .object (← plainEntries entries)
    | .reference _ => f.refuse (.notReference "dict")
    | .genericReference => f.unqualified (.dict entries)
    | .list _ => f.refuse (.notList "dict")
  | .document doc, f => do
    f.check (.document doc)
    match f.kind with
    | .scalar s =>
      if s = .any then return .object (← doc.fullPatch).sets else f.mismatch s (.document doc)
    | .embedded type =>
      if doc.type.isSubtypeOf type then return .object (← doc.fullPatch).sets
      else f.refuse (.otherDocument type.name doc.type.name)
    | .reference _ => f.linkId doc.keyJson
    | .genericReference => f.linkEnvelope doc.type doc.keyJson
    | .list _ => f.refuse (.notList "document")
    | .dict _ => f.refuse (.notDict "document")
  | .linked doc, f => do
    f.check (.linked doc)
    match f.kind with
    | .scalar s =>
      if s = .any then doc.type.linkJson doc.keyJson else f.mismatch s (.linked doc)
    | .embedded _ => f.refuse (.notEmbedded "linked document")
    | .reference _ => f.linkId doc.keyJson
    | .genericReference => f.linkEnvelope doc.type doc.keyJson
    | .list _ => f.refuse (.notList "linked document")
    | .dict _ => f.refuse (.notDict "linked document")
  | v, f => f.encodeLeaf v
termination_by structural v => v

/-- The stored forms of some values for the field of their list. -/
def encodeItems : List Value → Field → Drawing (List Json)
  | [], _ => return []
  | v :: vs, element => do return (← v.encode element) :: (← encodeItems vs element)
termination_by structural vs => vs

/-- The stored forms of some entries for the field of their dict, which has a name for each key
that it refuses. -/
def encodeEntries : List (String × Value) → Field → Field → Drawing Object
  | [], _, _ => return []
  | (k, v) :: rest, f, element => do
    if Field.isBadKey k then f.refuse (.dictKey k)
    else return (k, ← v.encode element) :: (← encodeEntries rest f element)
termination_by structural es => es

/-- The encoders of the attributes of a document. -/
def encodersOf : List (String × Value) → List (String × Encoder)
  | [] => []
  | (k, v) :: rest => (k, fun f => v.encode f) :: encodersOf rest
termination_by structural es => es

/-- What a document stores: every declared field, with its default where it has no value, and then
the other attributes. A primary key without a value is left out. -/
def Document.fullPatch : Document → Drawing Patch
  | ⟨type, values, _, _⟩ => type.assemble (encodersOf values)
termination_by structural d => d

/-- The stored form of the primary key, null where it has no value. -/
def Document.keyJson : Document → Drawing Json
  | ⟨type, values, _, _⟩ => type.keyFrom (encodersOf values)
termination_by structural d => d

/-- Assembles the stored form of a document of the type from the encoders of its attributes. -/
def DocumentType.assemble : DocumentType → List (String × Encoder) → Drawing Patch
  | ⟨_, className, _, fields, primaryKey, _, inheritance, superclass⟩, encoders => do
    let start := classPatch (inheritance || superclass.isSome) className
    addUndeclared fields encoders (← assembleFields fields primaryKey encoders start)
termination_by structural t => t

/-- Adds the declared fields, in their order. -/
def assembleFields :
    List Field → Option String → List (String × Encoder) → Patch → Drawing Patch
  | [], _, _, p => return p
  | f :: fs, primaryKey, encoders, p => do
    let encoded ← match encoderOf encoders f.name with
      | some encode => encode f
      | none => f.encodeDefault
    if encoded.isNull && primaryKey == some f.name then assembleFields fs primaryKey encoders p
    else assembleFields fs primaryKey encoders (p.put f.storageName encoded)
termination_by structural fs => fs

/-- The stored form of the default of a field. -/
def Field.encodeDefault : Field → Drawing Json
  | ⟨_, _, _, _, none, _⟩ => return .null
  | ⟨name, storageName, isRequired, kind, some d, validator⟩ =>
    d.encodeFor ⟨name, storageName, isRequired, kind, some d, validator⟩
termination_by structural f => f

/-- The stored form of a default for its field. -/
def Default.encodeFor : Default → Field → Drawing Json
  | .fixed v, f => v.encode f
  | .generated key stream, f => do
    let n ← Drawing.draw key
    (stream n).encode f
termination_by structural d => d

end

/-- The stored form of a document. -/
def Document.toStorage (doc : Document) : Drawing Object := do
  return (← doc.fullPatch).sets

end DocumentMapper
