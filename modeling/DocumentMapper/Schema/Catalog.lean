import DocumentMapper.Schema.Declaration
import DocumentMapper.Sorting

/-!
# The catalog of types

A `Catalog` knows types by name, in the order in which they were registered, and the class names
under which their documents are stored. Registering a type registers the embedded types of its
fields too, if their names are free.
-/

namespace DocumentMapper

/-- Registered types by name, and type names by class name. -/
structure Catalog where
  types : Entries DocumentType
  classes : Entries String

namespace Catalog

/-- The catalog without types. -/
def empty : Catalog := ⟨[], []⟩

instance : Inhabited Catalog := ⟨empty⟩

/-- Whether a type of the name is registered. -/
def contains (c : Catalog) (name : String) : Bool :=
  c.types.contains name

/-- The type of a name. -/
def get? (c : Catalog) (name : String) : Option DocumentType :=
  c.types.get? name

/-- The type of a name, or the error that there is none. -/
def get (c : Catalog) (name : String) : Except Error DocumentType :=
  match c.get? name with
  | some t => return t
  | none => throw (.notRegistered name)

/-- The catalog with one more type under its names. -/
def add (c : Catalog) (t : DocumentType) : Catalog where
  types := c.types.insert t.name t
  classes := c.classes.insert t.className t.name

/-- The type of a class name, or else of a type name. -/
def byClassName? (c : Catalog) (className : String) : Option DocumentType :=
  ((c.classes.get? className).bind c.get?).or (c.get? className)

/-- How far a type is below the root of its hierarchy. -/
def generation (t : DocumentType) : Nat :=
  t.className.toList.count '.'

/-- The type nearest to the root among those stored in a collection. -/
def forCollection? (c : Catalog) (collection : String) : Option DocumentType :=
  let stored := (c.types.map Prod.snd).filter fun t => t.collection == some collection
  (stableSort (fun s t => decide (generation s < generation t)) stored).head?

/-- The registered proper subtypes of a type, by class name. -/
def subtypesOf (c : Catalog) (t : DocumentType) : List DocumentType :=
  let below := (c.types.map Prod.snd).filter fun s =>
    s.className != t.className && s.isSubtypeOf t
  stableSort (fun s u => decide (s.className < u.className)) below

/-- The type that a stored document names, if that is the declared one or a subtype of it; the
declared one otherwise. -/
def concreteType (c : Catalog) (declared : DocumentType) (raw : Object) : DocumentType :=
  match ((raw.get? classKey).bind Json.asString?).bind c.byClassName? with
  | some t => if t.isSubtypeOf declared then t else declared
  | none => declared

/-- The names of all types. -/
def typeNames (c : Catalog) : List String :=
  c.types.keys

end Catalog

mutual

/-- The catalog with a type and the types that it embeds. -/
def DocumentType.enroll : DocumentType → Catalog → Catalog
  | ⟨name, className, collection, fields, primaryKey, isDynamic, inheritance, superclass⟩, c =>
    (enrollFields fields c).add
      ⟨name, className, collection, fields, primaryKey, isDynamic, inheritance, superclass⟩
termination_by structural t => t

/-- The catalog with the types that some fields embed. -/
def enrollFields : List Field → Catalog → Catalog
  | [], c => c
  | f :: fs, c => enrollFields fs (f.enroll c)
termination_by structural fs => fs

/-- The catalog with the types that a field embeds. -/
def Field.enroll : Field → Catalog → Catalog
  | ⟨_, _, _, kind, _, _⟩, c => kind.enroll c
termination_by structural f => f

/-- The catalog with the types that a kind embeds, where their names are free. -/
def Kind.enroll : Kind → Catalog → Catalog
  | .embedded t, c => if c.contains t.name then c else t.enroll c
  | .list element, c => element.enroll c
  | .dict element, c => element.enroll c
  | _, c => c
termination_by structural k => k

end

/-- Registers a type, whose name has to be free. -/
def Catalog.register (c : Catalog) (t : DocumentType) : Except Error Catalog :=
  if c.contains t.name then throw (.alreadyRegistered t.name) else return t.enroll c

end DocumentMapper
