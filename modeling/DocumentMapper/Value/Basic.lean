import DocumentMapper.Value.Reading

/-!
# Values, documents and their types

The types of this module refer to each other: a value can be a document, a document carries its
type, the fields of a type have kinds and defaults, a kind can embed another type, and a default
is a value. So they are declared together.

* `Value` is what a field of a document holds in memory;
* `Document` is a document in memory: its type, its values by attribute name in key order, the
  paths that changed since the last save, and the stored form it was loaded from, if any;
* `DocumentType` is the description of a type: its fields in order, where documents are stored,
  and its place in a hierarchy of types;
* `Field` is one attribute: its name in memory and in the store, its kind and its rules.
-/

namespace DocumentMapper

open Number Time

mutual

/-- A value in memory. The entries of a dict are sorted by key. -/
inductive Value where
  | null
  | bool (b : Bool)
  | int (n : Int64)
  | float (x : Double)
  | string (s : String)
  | datetime (i : Instant)
  | list (items : List Value)
  | dict (entries : List (String × Value))
  /-- An embedded document, with its own dirty paths. -/
  | document (doc : Document)
  | reference (r : Reference)
  /-- The document that a reference led to. -/
  | linked (doc : Document)

/-- A document in memory. -/
structure Document where
  type : DocumentType
  /-- The values by attribute name, sorted. -/
  values : List (String × Value)
  /-- The paths that changed since the last save; embedded documents keep their own. -/
  dirty : DirtyPaths
  /-- The stored form it was loaded from or saved as. -/
  raw : Option (List (String × Json))

/-- The description of a type of documents. -/
structure DocumentType where
  name : String
  /-- The names from the root of the hierarchy down to this type, dotted. -/
  className : String
  /-- Where documents are stored; embedded documents are not. -/
  collection : Option String
  fields : List Field
  primaryKey : Option String
  /-- Whether other attributes than the declared ones are accepted. -/
  isDynamic : Bool
  allowsInheritance : Bool
  superclass : Option String

/-- One attribute of a type. -/
structure Field where
  name : String
  /-- The name in the store. -/
  storageName : String
  isRequired : Bool
  kind : Kind
  default : Option Default
  validator : Option Validator

/-- What a field holds. -/
inductive Kind where
  | scalar (s : Scalar)
  | embedded (type : DocumentType)
  /-- A document of a fixed type, stored by its id. -/
  | reference (typeName : String)
  /-- A document of any type, stored by its collection and id. -/
  | genericReference
  | list (element : Field)
  | dict (element : Field)

/-- What an unset field starts with. -/
inductive Default where
  | fixed (value : Value)
  /-- The next value of a generator, which copies of the field share by its key. -/
  | generated (key : Nat) (stream : Nat → Value)

end

/-- The default that counts from a number on. -/
def Default.counter (key : Nat) (start : Int64) : Default :=
  .generated key fun n => .int (start + Int64.ofNat n)

/-! ### Readings -/

mutual

/-- What a rule can read of a value. -/
def Value.reading : Value → Reading
  | .null => .null
  | .bool b => .bool b
  | .int n => .int n
  | .float x => .float x
  | .string s => .string s
  | .datetime i => .datetime i
  | .list items => .list (readItems items)
  | .dict entries => .dict (readEntries entries)
  | .document doc => .document doc.reading
  | .reference r => .reference r
  | .linked doc => .linked doc.reading
termination_by structural v => v

/-- What a rule can read of some values. -/
def readItems : List Value → List Reading
  | [] => []
  | v :: vs => v.reading :: readItems vs
termination_by structural vs => vs

/-- What a rule can read of some entries. -/
def readEntries : List (String × Value) → List (String × Reading)
  | [] => []
  | (k, v) :: rest => (k, v.reading) :: readEntries rest
termination_by structural es => es

/-- What a rule can read of a document. -/
def Document.reading : Document → DocumentReading
  | ⟨type, values, dirty, raw⟩ => ⟨type.reading, readEntries values, dirty, raw⟩
termination_by structural d => d

/-- What a rule can read of a type. -/
def DocumentType.reading : DocumentType → TypeReading
  | ⟨name, className, collection, fields, primaryKey, isDynamic, inheritance, superclass⟩ =>
    ⟨name, className, collection, readFields fields, primaryKey, isDynamic, inheritance,
      superclass⟩
termination_by structural t => t

/-- What a rule can read of some fields. -/
def readFields : List Field → List FieldReading
  | [] => []
  | f :: fs => f.reading :: readFields fs
termination_by structural fs => fs

/-- What a rule can read of a field. -/
def Field.reading : Field → FieldReading
  | ⟨name, storageName, isRequired, kind, default, validator⟩ =>
    ⟨name, storageName, isRequired, kind.reading, readDefault default, validator.isSome⟩
termination_by structural f => f

/-- What a rule can read of a kind. -/
def Kind.reading : Kind → KindReading
  | .scalar s => .scalar s
  | .embedded type => .embedded type.reading
  | .reference typeName => .reference typeName
  | .genericReference => .genericReference
  | .list element => .list element.reading
  | .dict element => .dict element.reading
termination_by structural k => k

/-- What a rule can read of the default of a field. -/
def readDefault : Option Default → Option DefaultReading
  | none => none
  | some d => some d.reading
termination_by structural d => d

/-- What a rule can read of a default. -/
def Default.reading : Default → DefaultReading
  | .fixed v => .fixed v.reading
  | .generated _ _ => .generated
termination_by structural d => d

end

instance : Inhabited Value := ⟨.null⟩
instance : Inhabited DocumentType := ⟨⟨"", "", none, [], none, false, false, none⟩⟩
instance : Inhabited Document := ⟨⟨default, [], .empty, none⟩⟩
instance : Inhabited Field := ⟨⟨"", "", false, .scalar .any, none, none⟩⟩

/-! ### Fields -/

namespace Field

/-- A field of some kind, stored under its own name and without rules. -/
def ofKind (name : String) (kind : Kind) : Field where
  name := name
  storageName := name
  isRequired := false
  kind := kind
  default := none
  validator := none

/-- A field that holds anything. -/
def any (name : String) : Field :=
  ofKind name (.scalar .any)

/-- The same field under another name, in memory and in the store. -/
def renamed (f : Field) (name : String) : Field :=
  { f with name := name, storageName := name }

/-- A list whose items are described by `element`, under the name of the list. -/
def listOf (name : String) (element : Field) : Field :=
  ofKind name (.list (element.renamed name))

/-- A list of items of some kind. -/
def list (name : String) (element : Kind) : Field :=
  listOf name (ofKind name element)

/-- A dict of values of some kind. -/
def dict (name : String) (element : Kind) : Field :=
  ofKind name (.dict (ofKind name element))

end Field

namespace Kind

/-- The field that describes the parts of a list or dict. -/
def element? : Kind → Option Field
  | list element | dict element => some element
  | _ => none

/-- Whether values are references to other documents. -/
def isReference : Kind → Bool
  | reference _ | genericReference => true
  | _ => false

/-- Whether values are lists. -/
def isList : Kind → Bool
  | list _ => true
  | _ => false

/-- Whether values are dicts. -/
def isDict : Kind → Bool
  | dict _ => true
  | _ => false

/-- Whether anything is accepted. -/
def isAny : Kind → Bool
  | scalar .any => true
  | _ => false

end Kind

/-! ### Types -/

namespace DocumentType

/-- The field of an attribute. -/
def field? (t : DocumentType) (name : String) : Option Field :=
  t.fields.find? fun f => f.name == name

/-- The field stored under a name. -/
def storedField? (t : DocumentType) (name : String) : Option Field :=
  t.fields.find? fun f => f.storageName == name

/-- The field of the primary key. -/
def primaryKeyField? (t : DocumentType) : Option Field :=
  t.primaryKey.bind t.field?

/-- Whether documents only live inside other documents. -/
def isEmbedded (t : DocumentType) : Bool :=
  t.collection.isNone

/-- Whether stored documents name their class. -/
def isPolymorphic (t : DocumentType) : Bool :=
  t.allowsInheritance || t.superclass.isSome

/-- Whether the type is `other` or descends from it. -/
def isSubtypeOf (t other : DocumentType) : Bool :=
  t.className == other.className || isAbove other.className t.className

/-- The field of an attribute; a dynamic type describes other attributes as holding anything. -/
def describe? (t : DocumentType) (name : String) : Option Field :=
  match t.field? name with
  | some f => some f
  | none => if t.isDynamic then some (.any name) else none

/-- The attribute that a name stands for: `pk` is the primary key. -/
def attributeOf (t : DocumentType) (name : String) : String :=
  if name = "pk" then t.primaryKey.getD name else name

end DocumentType

/-! ### Values -/

namespace Value

/-- The name of the kind of a value. -/
def typeName : Value → String
  | null => "null"
  | bool _ => "bool"
  | int _ => "int"
  | float _ => "float"
  | string _ => "string"
  | datetime _ => "datetime"
  | list _ => "list"
  | dict _ => "dict"
  | document _ => "document"
  | reference _ => "reference"
  | linked _ => "linked document"

/-- Whether the value is null. -/
def isNull : Value → Bool
  | null => true
  | _ => false

/-- Whether the value is a list or a dict. -/
def isContainer : Value → Bool
  | list _ | dict _ => true
  | _ => false

/-- The truth value of a boolean. -/
def asBool? : Value → Option Bool
  | bool b => some b
  | _ => none

/-- The signed word that a number without fractional part is, or the nearer end of the range. -/
def asInt64? : Value → Option Int64
  | int n => some n
  | float x => if x.isWhole then some x.toInt64 else none
  | _ => none

/-- The binary64 value nearest to a number. -/
def asDouble? : Value → Option Double
  | float x => some x
  | int n => some (Double.ofInt n.toInt)
  | _ => none

/-- The text of a string. -/
def asString? : Value → Option String
  | string s => some s
  | _ => none

/-- The items of a list. -/
def asList? : Value → Option (List Value)
  | list items => some items
  | _ => none

/-- The entries of a dict. -/
def asDict? : Value → Option (Entries Value)
  | dict entries => some entries
  | _ => none

/-- The document that is embedded or linked here. -/
def asDocument? : Value → Option Document
  | document doc | linked doc => some doc
  | _ => none

/-- The reference that is held here. -/
def asReference? : Value → Option Reference
  | reference r => some r
  | _ => none

/-- A dict of some pairs; a later pair replaces an earlier one of the same key. -/
def ofPairs (pairs : List (String × Value)) : Value :=
  dict (Entries.ofPairs pairs)

/-- The number on the other side of zero, if the value is a number and there is one. -/
def negated? : Value → Option Value
  | int n => if n = Int64.minValue then none else some (int (-n))
  | float x => some (float x.neg)
  | _ => none

end Value

namespace Document

/-- A document without values that was never saved. -/
def new (type : DocumentType) : Document where
  type := type
  values := []
  dirty := .empty
  raw := none

/-- Whether the document was neither loaded nor saved. -/
def isNew (d : Document) : Bool :=
  d.raw.isNone

/-- The value of an attribute, `pk` being the primary key. -/
def get? (d : Document) (name : String) : Option Value :=
  Entries.get? d.values (d.type.attributeOf name)

/-- The value of the primary key, if it is set. -/
def primaryKey? (d : Document) : Option Value :=
  match d.type.primaryKey.bind (Entries.get? d.values) with
  | some v => if v.isNull then none else some v
  | none => none

end Document

namespace Reference

/-- A reference to a document of a declared type. -/
def typed (typeName : String) (id : Json) : Reference :=
  ⟨.type typeName, id⟩

/-- A reference to a document of a collection. -/
def generic (collection : String) (className : Option String) (id : Json) : Reference :=
  ⟨.collection collection className, id⟩

/-- The stored form of a reference into a collection. -/
def pair (collection : String) (id : Json) : Json :=
  .object [("$ref", .string collection), ("$id", id)]

end Reference

end DocumentMapper
