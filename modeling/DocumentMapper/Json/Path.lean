import DocumentMapper.Error
import DocumentMapper.Json.Basic
import DocumentMapper.Text.Numeral
import DocumentMapper.Text.Split

/-!
# Dotted paths into stored values

A path is a list of segments. A segment names an entry of an object or, as a number, an item of an
array. Reading follows one value; `Json.reach` also fans out: an array met on the way stands for
its objects, unless the segment is a position. Writing creates missing objects, treats null as a
missing object and fills arrays up with null. Removing an array item leaves null in its place.

## Main definitions

* `Json.getPath?`, `Json.setPath`, `Json.removePath?` read, write and remove along a path;
* `Json.reach` collects what a filter sees at a path;
* `Json.arrayAt` is the array at a path, created when missing.
-/

namespace DocumentMapper

open Text

namespace Json

/-- The part of a value that a segment names. -/
def child? : Json → String → Option Json
  | object es, segment => Entries.get? es segment
  | array items, segment => (position? segment).bind fun i => items[i]?
  | _, _ => none

/-- The value at a path. -/
def getPath? : List String → Json → Option Json
  | [], v => some v
  | segment :: rest, v => (v.child? segment).bind (getPath? rest)

/-- The values at a path, where arrays on the way fan out over their objects. -/
def reach : List String → Json → List Json
  | [], v => [v]
  | segment :: rest, object es =>
    match Entries.get? es segment with
    | some v => reach rest v
    | none => []
  | segment :: rest, array items =>
    match position? segment with
    | some i =>
      match items[i]? with
      | some v => reach rest v
      | none => []
    | none =>
      items.flatMap fun
        | object es =>
          match Entries.get? es segment with
          | some v => reach rest v
          | none => []
        | _ => []
  | _ :: _, _ => []

/-- The items with `v` at position `i`, filled up with null if there are too few. -/
def putItem (items : List Json) (i : Nat) (v : Json) : List Json :=
  if i < items.length then items.set i v
  else items ++ List.replicate (i - items.length) null ++ [v]

/-- The container with the part named by `segment` changed by `f`; a missing part is null. -/
def changePart (path segment : String) (f : Json → Except StoreError Json) :
    Json → Except StoreError Json
  | object es => do
    let v ← f ((Entries.get? es segment).getD null)
    return object (Entries.insert es segment v)
  | array items =>
    match position? segment with
    | some i => do
      let v ← f (items[i]?.getD null)
      return array (putItem items i v)
    | none => throw (.arrayPart segment path)
  | v => return v

/-- The container with `new` at the segments. `path` is quoted in errors. -/
def setSegments (path : String) (new : Json) : List String → Json → Except StoreError Json
  | [], v => return v
  | [segment], v => changePart path segment (fun _ => return new) v
  | segment :: rest, v =>
    changePart path segment
      (fun
        | null => setSegments path new rest (object [])
        | object es => setSegments path new rest (object es)
        | array items => setSegments path new rest (array items)
        | _ => throw (.scalarPart segment path))
      v

/-- The value with the part named by an existing segment replaced. -/
def replacePart (segment : String) (new : Json) : Json → Json
  | object es => object (Entries.insert es segment new)
  | array items =>
    match position? segment with
    | some i => array (items.set i new)
    | none => array items
  | v => v

/-- The removed value and what remains, if the segments lead anywhere. -/
def removeSegments? : List String → Json → Option (Json × Json)
  | [], _ => none
  | [segment], object es =>
    (Entries.get? es segment).map fun v => (v, object (Entries.erase es segment))
  | [segment], array items => do
    let i ← position? segment
    let v ← items[i]?
    return (v, array (items.set i null))
  | [_], _ => none
  | segment :: rest, v => do
    let part ← v.child? segment
    let (removed, part) ← removeSegments? rest part
    return (removed, replacePart segment part v)

end Json

namespace Object

/-- The value at a dotted path. -/
def getPath? (doc : Object) (path : String) : Option Json :=
  (Json.object doc).getPath? (dottedSegments path)

/-- The values that a filter sees at a dotted path. -/
def lookup (doc : Object) (path : String) : List Json :=
  (Json.object doc).reach (dottedSegments path)

/-- The document with `new` at a dotted path. -/
def setPath (doc : Object) (path : String) (new : Json) : Except StoreError Object := do
  match ← Json.setSegments path new (dottedSegments path) (.object doc) with
  | .object es => return es
  | _ => return doc

/-- The removed value and the remaining document, if the dotted path leads anywhere. -/
def removePath? (doc : Object) (path : String) : Option (Json × Object) :=
  match Json.removeSegments? (dottedSegments path) (.object doc) with
  | some (removed, .object es) => some (removed, es)
  | _ => none

/-- The document with the dotted path removed. -/
def removePath (doc : Object) (path : String) : Object :=
  match doc.removePath? path with
  | some (_, rest) => rest
  | none => doc

/-- The array at a dotted path, and the document that has it; a missing one is created empty.
`operator` is quoted in errors. -/
def arrayAt (doc : Object) (path operator : String) : Except StoreError (Object × List Json) :=
  match doc.getPath? path with
  | none => do return (← doc.setPath path (.array []), [])
  | some (.array items) => return (doc, items)
  | some .null => throw (.nullTarget operator path)
  | some _ => throw (.arrayTarget operator path)

end Object

end DocumentMapper
