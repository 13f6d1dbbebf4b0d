import DocumentMapper.Filter.Matching
import DocumentMapper.Sorting
import DocumentMapper.Store.Basic

/-!
# Finding documents

A search takes the documents of a collection that meet a filter, sorts them, cuts out a section and
reduces each to a selection of its paths.

Sorting goes by several paths, each ascending or descending. A missing value comes before any other,
and values that cannot be compared count as equal. A selection either lists what to keep, which
includes the id unless it is excluded, or lists what to leave out.

## Main definitions

* `FindOptions` says how to sort, cut and select;
* `sortOrder` compares two documents, `Object.project` selects paths;
* `Store.find` and `Store.count` search a collection.
-/

namespace DocumentMapper

/-- How to sort, cut and reduce what is found. -/
structure FindOptions where
  projection : Option Object
  /-- The paths to sort by; those with `true` are ascending. -/
  sort : List (String × Bool)
  limit : Option Nat
  skip : Nat

namespace FindOptions

/-- All documents as they are. -/
def none : FindOptions := ⟨.none, [], .none, 0⟩

instance : Inhabited FindOptions := ⟨none⟩

end FindOptions

/-- The order of the values at one path. A missing value comes first. -/
def orderOfValues : Option Json → Option Json → Ordering
  | none, none => .eq
  | none, some _ => .lt
  | some _, none => .gt
  | some x, some y => (x.compare? y).getD .eq

/-- The order of two documents by several paths. -/
def sortOrder : List (String × Bool) → Object → Object → Ordering
  | [], _, _ => .eq
  | (path, ascending) :: rest, a, b =>
    let order := orderOfValues (a.getPath? path) (b.getPath? path)
    match if ascending then order else order.swap with
    | .eq => sortOrder rest a b
    | decided => decided

namespace Object

/-- The document with a path written, or as it was if the path collides with a value. -/
def place (doc : Object) (path : String) (v : Json) : Object :=
  match doc.setPath path v with
  | .ok changed => changed
  | .error _ => doc

/-- Whether a flag of a selection asks to keep the path. -/
def isIncluded (flag : Json) : Bool :=
  match flag.asInt64? with
  | some n => n ≠ 0
  | none => flag.asBool? == some true

/-- The paths of a selection besides the id. -/
def selectedPaths (projection : Object) : Object :=
  projection.filter fun e => e.1 ≠ idKey

/-- Whether a selection keeps the id. -/
def keepsId (projection : Object) : Bool :=
  match projection.get? idKey with
  | some flag => isIncluded flag
  | none => true

/-- The id and the listed paths of a document. -/
def keepPaths (doc : Object) (keepId : Bool) (paths : List String) : Object :=
  let start : Object :=
    match if keepId then doc.get? idKey else none with
    | some id => [(idKey, id)]
    | none => []
  paths.foldl
    (fun kept path =>
      match doc.getPath? path with
      | some v => place kept path v
      | none => kept)
    start

/-- The document without the listed paths. -/
def dropPaths (doc : Object) (keepId : Bool) (paths : List String) : Object :=
  let rest := paths.foldl removePath doc
  if keepId then rest else rest.erase idKey

/-- The document reduced by a selection. -/
def project (doc projection : Object) : Object :=
  let paths := selectedPaths projection
  let kept := paths.filter fun e => isIncluded e.2
  if kept.isEmpty then doc.dropPaths (keepsId projection) (paths.map Prod.fst)
  else doc.keepPaths (keepsId projection) (kept.map Prod.fst)

end Object

/-- The documents that meet a filter. -/
def meeting (filter : Object) : List Object → Except StoreError (List Object)
  | [] => return []
  | doc :: rest => do
    let holds ← doc.meets filter
    let found ← meeting filter rest
    return if holds then doc :: found else found

namespace Store

/-- Searches a collection. -/
def find (s : Store) (collection : String) (filter : Object) (options : FindOptions) :
    Except StoreError (List Object) := do
  let found ← meeting filter (s.documents collection)
  let sorted :=
    if options.sort.isEmpty then found
    else stableSort (fun a b => sortOrder options.sort a b == .lt) found
  let rest := sorted.drop options.skip
  let cut :=
    match options.limit with
    | some n => rest.take n
    | none => rest
  return match options.projection with
    | some projection => cut.map (·.project projection)
    | none => cut

/-- How many documents of a collection meet a filter. -/
def count (s : Store) (collection : String) (filter : Object) : Except StoreError Nat := do
  return (← s.find collection filter .none).length

end Store

end DocumentMapper
