import DocumentMapper.Document.DirtyPaths
import DocumentMapper.Json.Basic
import DocumentMapper.Time.Instant

/-!
# What a rule can read of a value

A field can have a rule, which is any function of the values that the field is given. A value can
be a document, though, and the fields of its type have rules again. So a rule is a function of the
reading of a value: the value with everything in it, the changed paths and the types of its
documents included, except what the rules and the generated defaults of those types do. A rule that
asks these is a function of the reading as well, as long as types that read the same have the same.

* `Target`, `Reference` and `Scalar` are what values and types are made of;
* `Reading` is the reading of a value;
* `Validator` is a rule.
-/

namespace DocumentMapper

open Number Time

/-- Where a reference points to. -/
inductive Target where
  /-- A document of a type that the field declares. -/
  | type (name : String)
  /-- A document of a collection, with the class it was stored under if that is known. -/
  | collection (name : String) (className : Option String)
deriving DecidableEq

/-- A reference to a stored document by its id. -/
structure Reference where
  target : Target
  id : Json

/-- The kinds of values without parts, and the geometries. -/
inductive Scalar where
  | any
  | string
  | int
  | float
  | bool
  | datetime
  | objectId
  | geoPoint
  | point
  | lineString
  | polygon
deriving DecidableEq

/-- The name of a scalar in messages. -/
def Scalar.name : Scalar → String
  | any => "Any"
  | string => "String"
  | int => "Int"
  | float => "Float"
  | bool => "Bool"
  | datetime => "DateTime"
  | objectId => "ObjectId"
  | geoPoint => "GeoPoint"
  | point => "Point"
  | lineString => "LineString"
  | polygon => "Polygon"

/-- The type name that GeoJSON gives a geometry. -/
def Scalar.geoJsonType? : Scalar → Option String
  | point => some "Point"
  | lineString => some "LineString"
  | polygon => some "Polygon"
  | _ => none

/-- Whether the scalar is a position or a geometry. -/
def Scalar.isGeo (s : Scalar) : Bool :=
  s = geoPoint || s.geoJsonType?.isSome

mutual

/-- The reading of a value. -/
inductive Reading where
  | null
  | bool (b : Bool)
  | int (n : Int64)
  | float (x : Double)
  | string (s : String)
  | datetime (i : Instant)
  | list (items : List Reading)
  | dict (entries : List (String × Reading))
  | document (doc : DocumentReading)
  | reference (r : Reference)
  | linked (doc : DocumentReading)

/-- The reading of a document. -/
structure DocumentReading where
  type : TypeReading
  values : List (String × Reading)
  dirty : DirtyPaths
  raw : Option (List (String × Json))

/-- The reading of a type. -/
structure TypeReading where
  name : String
  className : String
  collection : Option String
  fields : List FieldReading
  primaryKey : Option String
  isDynamic : Bool
  allowsInheritance : Bool
  superclass : Option String

/-- The reading of a field: whether it has a rule, but not which. -/
structure FieldReading where
  name : String
  storageName : String
  isRequired : Bool
  kind : KindReading
  default : Option DefaultReading
  isChecked : Bool

/-- The reading of a kind. -/
inductive KindReading where
  | scalar (s : Scalar)
  | embedded (type : TypeReading)
  | reference (typeName : String)
  | genericReference
  | list (element : FieldReading)
  | dict (element : FieldReading)

/-- The reading of a default: a fixed one, or that values are generated. -/
inductive DefaultReading where
  | fixed (value : Reading)
  | generated

end

/-- A rule that a value has to meet before it is stored: what it has against each reading, in
words. -/
structure Validator where
  against : Reading → Option String

end DocumentMapper
