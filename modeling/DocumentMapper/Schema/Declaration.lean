import DocumentMapper.Error
import DocumentMapper.Unicode.Case
import DocumentMapper.Value.Basic

/-!
# Declaring types

A `Declaration` is a type under construction: it starts as a stored document, as an embedded one or
as a subtype of a built type, collects its settings, and is checked when it is built.

A built type has distinct attribute names and distinct storage names. An embedded type has neither
collection nor primary key. Any other type has a collection, named after the type unless one was
given, and a primary key that is stored as `_id`; without a declared one it is a first field
called `id`.
-/

namespace DocumentMapper

open Unicode

/-- The storage name of every primary key. -/
def idKey : String := "_id"

/-- The storage name of the class of a polymorphic document. -/
def classKey : String := "_cls"

/-- A type under construction. -/
structure Declaration where
  name : String
  className : String
  collection : Option String
  isEmbedded : Bool
  fields : List Field
  primaryKey : Option String
  isDynamic : Bool
  allowsInheritance : Bool
  superclass : Option String

namespace Declaration

/-- A stored type without settings. -/
def document (name : String) : Declaration where
  name := name
  className := name
  collection := none
  isEmbedded := false
  fields := []
  primaryKey := none
  isDynamic := false
  allowsInheritance := false
  superclass := none

/-- An embedded type without settings. -/
def embedded (name : String) : Declaration :=
  { document name with isEmbedded := true }

/-- A subtype: it starts with the fields, the collection and the primary key of its parent. -/
def subtype (name : String) (parent : DocumentType) : Declaration where
  name := name
  className := parent.className ++ "." ++ name
  collection := parent.collection
  isEmbedded := parent.collection.isNone
  fields := parent.fields
  primaryKey := parent.primaryKey
  isDynamic := parent.isDynamic
  allowsInheritance := true
  superclass := some parent.name

/-- Names the collection. -/
def inCollection (d : Declaration) (collection : String) : Declaration :=
  { d with collection := some collection }

/-- The fields with one of the same name replaced, or with a new last one. -/
def putField (f : Field) : List Field → List Field
  | [] => [f]
  | g :: gs => if g.name = f.name then f :: gs else g :: putField f gs

/-- Adds a field, in place of one of the same name. -/
def withField (d : Declaration) (f : Field) : Declaration :=
  { d with fields := putField f d.fields }

/-- Names the primary key. -/
def withPrimaryKey (d : Declaration) (name : String) : Declaration :=
  { d with primaryKey := some name }

/-- Accepts other attributes than the declared ones. -/
def dynamic (d : Declaration) : Declaration :=
  { d with isDynamic := true }

/-- Allows subtypes. -/
def inheritable (d : Declaration) : Declaration :=
  { d with allowsInheritance := true }

/-- A character of a collection name; `first` says that it is the first one. -/
def collectionChars (first : Bool) (c : Char) : List Char :=
  if isUpper c then (if first then [] else ['_']) ++ lowerChars c else [c]

/-- The collection named after a type: words in lower case, joined by underscores. -/
def defaultCollection (name : String) : String :=
  match name.toList with
  | [] => ""
  | c :: cs => String.ofList (collectionChars true c ++ cs.flatMap (collectionChars false))

/-- The fields with the first one of a name stored as `_id`. -/
def storeAsId (name : String) : List Field → List Field
  | [] => []
  | f :: fs =>
    if f.name = name then { f with storageName := idKey } :: fs else f :: storeAsId name fs

/-- The first name that an earlier field or storage name repeats. -/
def checkNames (type : String) (names stored : List String) : List Field → Except UsageError Unit
  | [] => return ()
  | f :: fs =>
    if names.contains f.name then throw (.fieldTwice f.name type)
    else if stored.contains f.storageName then throw (.storageNameTwice f.storageName type)
    else checkNames type (f.name :: names) (f.storageName :: stored) fs

/-- The primary key and the fields of a stored type. -/
def resolveKey (d : Declaration) : Except UsageError (String × List Field) := do
  let (key, fields) ← match d.primaryKey with
    | some key => pure (key, d.fields)
    | none =>
      if d.fields.any fun f => f.name == "id" then throw (.unmarkedId d.name)
      else pure ("id", .ofKind "id" (.scalar .objectId) :: d.fields)
  if fields.any fun f => f.name == key then return (key, storeAsId key fields)
  else throw (.keyNotField key d.name)

/-- Checks the declaration and completes the type. -/
def build (d : Declaration) : Except UsageError DocumentType := do
  let (collection, primaryKey, fields) ←
    if d.isEmbedded then
      match d.primaryKey with
      | some key => throw (.embeddedKey d.name key)
      | none => pure (none, none, d.fields)
    else
      let collection := d.collection.getD (defaultCollection d.name)
      if collection.isEmpty then throw (.emptyCollection d.name)
      else
        let (key, fields) ← d.resolveKey
        pure (some collection, some key, fields)
  checkNames d.name [] [] fields
  return {
    name := d.name
    className := d.className
    collection
    fields
    primaryKey
    isDynamic := d.isDynamic
    allowsInheritance := d.allowsInheritance
    superclass := d.superclass }

end Declaration

end DocumentMapper
