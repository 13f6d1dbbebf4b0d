import DocumentMapper.Error
import DocumentMapper.Json.Reader
import DocumentMapper.Text.Split

/-!
# Settings

The settings of a mapper: where the store is, and how documents are loaded. They can be read from a
connection string, `docmap://host:port/database?max_depth=2`, and from a JSON text. The text is an
object, where missing settings keep their defaults and unknown ones are passed over, or an array
with the settings in order.

## Main definitions

* `Settings.readUrl` and `Settings.url` read and write connection strings;
* `Settings.readJson?` reads a JSON text.
-/

namespace DocumentMapper

open Text

/-- The settings of a mapper. -/
structure Settings where
  host : String
  port : Nat
  database : String
  /-- How many hops references are resolved when documents are loaded. -/
  maxDepth : Nat
  /-- Whether references of loaded documents are resolved without being asked for. -/
  autoDereference : Bool
  logQueries : Bool
deriving DecidableEq

namespace Settings

/-- The settings where nothing else is said. -/
def standard : Settings where
  host := "localhost"
  port := 27017
  database := "docmap"
  maxDepth := 1
  autoDereference := false
  logQueries := false

instance : Inhabited Settings := ⟨standard⟩

/-! ### Connection strings -/

/-- How every connection string begins. -/
def scheme : String := "docmap://"

/-- The parts before and after the first `sep`. -/
def cut? (sep : Char) (text : String) : Option (String × String) :=
  (splitFirst? sep text.toList).map fun p => (String.ofList p.1, String.ofList p.2)

/-- How many ports there are. -/
def portCount : Nat := 65536

/-- The value of a flag in a connection string. -/
def readFlag (key text : String) : Except SettingError Bool :=
  match text with
  | "true" | "1" => return true
  | "false" | "0" => return false
  | _ => throw (.value key text)

/-- The settings with a parameter of a connection string. -/
def withParameter (s : Settings) (pair : String) : Except SettingError Settings :=
  match cut? '=' pair with
  | none => throw (.parameter pair)
  | some (key, value) =>
    match key with
    | "max_depth" =>
      match natural? Number.wordCount value.toList with
      | some n => return { s with maxDepth := n }
      | none => throw (.value key value)
    | "auto_dereference" => do return { s with autoDereference := ← readFlag key value }
    | "log_queries" => do return { s with logQueries := ← readFlag key value }
    | _ => throw (.unknownParameter key)

/-- The settings with the host and the port of a connection string, as far as they are given. -/
def withAddress (s : Settings) (address : String) : Except SettingError Settings :=
  match cut? ':' address with
  | some (host, port) =>
    match natural? portCount port.toList with
    | some n => return { s with host, port := n }
    | none => throw (.port port)
  | none => return if address.isEmpty then s else { s with host := address }

/-- Reads a connection string. -/
def readUrl (url : String) : Except SettingError Settings := do
  match dropStart? scheme url with
  | none => throw (.scheme scheme)
  | some rest =>
    let (location, parameters) := (cut? '?' rest).getD (rest, "")
    match cut? '/' location with
    | none => throw .location
    | some (address, database) =>
      if database.isEmpty then throw .noDatabase
      else
        let s ← { standard with database }.withAddress address
        let pairs := (splitAtChar '&' parameters.toList).filter fun p => !p.isEmpty
        pairs.foldlM (fun s p => s.withParameter (String.ofList p)) s

/-- The connection string, which does not say everything. -/
def url (s : Settings) : String :=
  scheme ++ s.host ++ ":" ++ toString s.port ++ "/" ++ s.database ++ "?max_depth="
    ++ toString s.maxDepth

/-! ### JSON texts -/

/-- A natural number below a bound, written without sign, point and exponent. -/
def readNat? (bound : Nat) : Literal → Option Nat
  | .number n =>
    if n.integral && !n.negative && decide (n.digits < bound) then some n.digits else none
  | _ => none

/-- A text. -/
def readText? : Literal → Option String
  | .string s => s
  | _ => none

/-- A truth value. -/
def readBool? : Literal → Option Bool
  | .bool b => some b
  | _ => none

/-- The names of the settings, in order. -/
def names : List String :=
  ["host", "port", "database", "max_depth", "auto_dereference", "log_queries"]

/-- The settings with one of them read from a literal. -/
def assign? (s : Settings) (name : String) (v : Literal) : Option Settings :=
  match name with
  | "host" => (readText? v).map fun host => { s with host }
  | "port" => (readNat? portCount v).map fun port => { s with port }
  | "database" => (readText? v).map fun database => { s with database }
  | "max_depth" => (readNat? Number.wordCount v).map fun maxDepth => { s with maxDepth }
  | "auto_dereference" => (readBool? v).map fun b => { s with autoDereference := b }
  | "log_queries" => (readBool? v).map fun b => { s with logQueries := b }
  | _ => some s

/-- The settings with the entries of an object. No setting may be given twice. -/
def assignEntries? (s : Settings) (seen : List String) :
    List (Option String × Literal) → Option Settings
  | [] => some s
  | (none, _) :: _ => none
  | (some name, v) :: rest =>
    if seen.contains name && names.contains name then none
    else do (← s.assign? name v).assignEntries? (name :: seen) rest

/-- The settings with the items of an array, in the order of their names. -/
def assignItems? (s : Settings) : List String → List Literal → Option Settings
  | _, [] => some s
  | name :: names, v :: rest => do (← s.assign? name v).assignItems? names rest
  | [], _ :: _ => none

/-- Reads a JSON text. -/
def readJson? (text : String) : Option Settings := do
  match ← Literal.read? text with
  | .object entries => standard.assignEntries? [] entries
  | .array items => standard.assignItems? names items
  | _ => none

end Settings

end DocumentMapper
