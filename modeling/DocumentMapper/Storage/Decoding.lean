import DocumentMapper.Schema.Catalog

/-!
# Reading stored forms

How stored values become values. `Value.ofJson` decodes a value on its own: an object that has the
shape of a reference becomes one, everything else keeps its structure. `Field.decode` decodes a
value for a field; a shape that the field does not expect is decoded on its own, so decoding never
fails. `Document.ofStorage` finds the attribute of every storage name.
-/

namespace DocumentMapper

open Number Time

mutual

/-- The reference that an object is: a collection and an id, or such a pair with its class. -/
def Json.reference? : Json → Option Reference
  | .object entries =>
    match Entries.get? entries "$ref", Entries.get? entries "$id" with
    | some (.string collection), some id => some (.generic collection none id)
    | _, _ =>
      (innerReference? entries).map fun r =>
        match r.target with
        | .collection name _ =>
          ⟨.collection name ((Entries.get? entries classKey).bind Json.asString?), r.id⟩
        | .type name => ⟨.type name, r.id⟩
  | _ => none
termination_by structural j => j

/-- The reference that the inner object of an envelope is. -/
def innerReference? : List (String × Json) → Option Reference
  | [] => none
  | (key, j) :: rest => if key = "_ref" then j.reference? else innerReference? rest
termination_by structural es => es

end

mutual

/-- A stored value on its own. -/
def Value.ofJson : Json → Value
  | .null => .null
  | .bool b => .bool b
  | .whole n =>
    match n.toInt64? with
    | some w => .int w
    | none => .float (Double.ofInt n.val)
  | .float x => .float (.finite x)
  | .string s => .string s
  | .array items => .list (Value.ofItems items)
  | .object entries =>
    match (Json.object entries).reference? with
    | some r => .reference r
    | none => .ofPairs (Value.ofEntries entries)
termination_by structural j => j

/-- Some stored values, one by one. -/
def Value.ofItems : List Json → List Value
  | [] => []
  | j :: js => Value.ofJson j :: Value.ofItems js
termination_by structural js => js

/-- Some stored entries, one by one. -/
def Value.ofEntries : List (String × Json) → List (String × Value)
  | [] => []
  | (k, j) :: rest => (k, Value.ofJson j) :: Value.ofEntries rest
termination_by structural es => es

end

/-- A stored value without parts, for a scalar field. -/
def Scalar.decodeLeaf (s : Scalar) (j : Json) : Value :=
  match s, j with
  | .datetime, .string t =>
    match Instant.read? t with
    | some i => .datetime i
    | none => .string t
  | .float, .whole n => .float (Double.ofInt n.val)
  | _, _ => .ofJson j

/-- A geometry is read as its coordinates. -/
def Scalar.decodeObject (s : Scalar) (entries : Object) : Value :=
  match s.geoJsonType?, entries.get? "coordinates" with
  | some _, some coordinates => .ofJson coordinates
  | _, _ => .ofJson (.object entries)

/-- A value of a reference field: the id, taken out of a reference with its collection. -/
def decodeReference (typeName : String) (j : Json) : Value :=
  match j with
  | .null => .null
  | .object entries =>
    match j.reference? with
    | some r => .reference (.typed typeName r.id)
    | none => .ofJson (.object entries)
  | id => .reference (.typed typeName id)

mutual

/-- A stored value for a field. -/
def Json.decode (c : Catalog) : Json → Field → Value
  | .null, _ => .null
  | .array items, f =>
    match f.kind with
    | .list element => .list (decodeItems c items element)
    | .reference typeName => decodeReference typeName (.array items)
    | _ => .ofJson (.array items)
  | .object entries, f =>
    match f.kind with
    | .scalar s => s.decodeObject entries
    | .embedded declared =>
      let type := c.concreteType declared entries
      .document
        { type
          values := Entries.ofPairs (decodeFields c entries type)
          dirty := .empty
          raw := some entries }
    | .reference typeName => decodeReference typeName (.object entries)
    | .dict element => .ofPairs (decodeEntries c entries element)
    | _ => .ofJson (.object entries)
  | j, f =>
    match f.kind with
    | .scalar s => s.decodeLeaf j
    | .reference typeName => decodeReference typeName j
    | _ => .ofJson j
termination_by structural j => j

/-- The items of a list for the field that describes them. -/
def decodeItems (c : Catalog) : List Json → Field → List Value
  | [], _ => []
  | j :: js, element => j.decode c element :: decodeItems c js element
termination_by structural js => js

/-- The entries of a dict for the field that describes them. -/
def decodeEntries (c : Catalog) : List (String × Json) → Field → List (String × Value)
  | [], _ => []
  | (k, j) :: rest, element => (k, j.decode c element) :: decodeEntries c rest element
termination_by structural es => es

/-- The attributes of a stored document. Other storage names than the declared ones count on
dynamic types only, and the class is no attribute. -/
def decodeFields (c : Catalog) : List (String × Json) → DocumentType → List (String × Value)
  | [], _ => []
  | (key, j) :: rest, t =>
    if key = classKey then decodeFields c rest t
    else
      match t.storedField? key with
      | some f => (f.name, j.decode c f) :: decodeFields c rest t
      | none =>
        if t.isDynamic then (key, .ofJson j) :: decodeFields c rest t else decodeFields c rest t
termination_by structural es => es

end

/-- A stored value for a field. -/
def Field.decode (c : Catalog) (f : Field) (j : Json) : Value :=
  j.decode c f

/-- A stored document of the given type. -/
def Document.ofStorage (c : Catalog) (t : DocumentType) (raw : Object) : Document where
  type := t
  values := Entries.ofPairs (decodeFields c raw t)
  dirty := .empty
  raw := some raw

end DocumentMapper
