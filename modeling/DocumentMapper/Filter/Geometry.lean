import DocumentMapper.Error
import DocumentMapper.Value.Basic

/-!
# Geometric conditions

Positions and geometries have operators of their own. A field of plain pairs takes the operators
of the flat plane; any other field takes those of the sphere, whose operand is a geometry or a
list of coordinates from which one is inferred.
-/

namespace DocumentMapper

/-- The geometric operators. -/
def geoOperators : List String :=
  ["within_distance", "within_spherical_distance", "within_box", "within_polygon", "near",
    "near_sphere", "max_distance", "min_distance", "geo_within", "geo_within_box",
    "geo_within_polygon", "geo_within_center", "geo_within_sphere", "geo_intersects"]

/-- Whether an operator is geometric. -/
def isGeoOperator (op : String) : Bool :=
  geoOperators.contains op

/-- An object with one entry. -/
def Json.single (key : String) (v : Json) : Json :=
  .object [(key, v)]

/-- The geometry that coordinates belong to, by how deep they are nested. -/
def inferGeometry (v : Json) : Except QueryError Json :=
  match v with
  | .object entries =>
    if Entries.contains entries "$geometry" then return v
    else if Entries.contains entries "type" && Entries.contains entries "coordinates" then
      return .single "$geometry" v
    else throw .geometryKeys
  | .array (first :: _) =>
    let type :=
      match first with
      | .array (.array _ :: _) => "Polygon"
      | .array _ => "LineString"
      | _ => "Point"
    return .single "$geometry" (.object [("type", .string type), ("coordinates", v)])
  | _ => throw .geometryData

/-- The condition of an operator of the flat plane. -/
def flatCondition? (op : String) (v : Json) : Option Json :=
  if op = "within_distance" then some (.single "$within" (.single "$center" v))
  else if op = "within_spherical_distance" then
    some (.single "$within" (.single "$centerSphere" v))
  else if op = "within_polygon" then some (.single "$within" (.single "$polygon" v))
  else if op = "within_box" then some (.single "$within" (.single "$box" v))
  else if op = "near" then some (.single "$near" v)
  else if op = "near_sphere" then some (.single "$nearSphere" v)
  else none

/-- The condition of an operator of the sphere. -/
def sphereCondition? (op : String) (v : Json) : Option (Except QueryError Json) :=
  if op = "geo_within" then some ((inferGeometry v).map (.single "$geoWithin"))
  else if op = "geo_within_box" then some (pure (.single "$geoWithin" (.single "$box" v)))
  else if op = "geo_within_polygon" then some (pure (.single "$geoWithin" (.single "$polygon" v)))
  else if op = "geo_within_center" then some (pure (.single "$geoWithin" (.single "$center" v)))
  else if op = "geo_within_sphere" then
    some (pure (.single "$geoWithin" (.single "$centerSphere" v)))
  else if op = "geo_intersects" then some ((inferGeometry v).map (.single "$geoIntersects"))
  else if op = "near" then some ((inferGeometry v).map (.single "$near"))
  else if op = "near_sphere" then some ((inferGeometry v).map (.single "$nearSphere"))
  else none

/-- The condition that a geometric operator stands for on a field. -/
def Field.geoCondition (f : Field) (op : String) (v : Json) : Except QueryError Json :=
  let isFlat :=
    match f.kind with
    | .scalar .geoPoint => true
    | _ => false
  if op = "max_distance" then return .single "$maxDistance" v
  else if op = "min_distance" then return .single "$minDistance" v
  else if isFlat then
    match flatCondition? op v with
    | some j => return j
    | none => throw (.geoOperator op f.name)
  else
    match sphereCondition? op v with
    | some j => j
    | none => throw (.geoOperator op f.name)

end DocumentMapper
