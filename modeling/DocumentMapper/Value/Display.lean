import DocumentMapper.Number.Layout
import DocumentMapper.Json.Printer
import DocumentMapper.Text.Quoted
import DocumentMapper.Value.Basic

/-!
# Values in messages

How a value is shown to a reader: texts as they are, lists and dicts with their parts, documents by
their type and references by target and id.
-/

namespace DocumentMapper

open Number Text

/-- A target in messages. -/
def Target.display : Target → String
  | .type name => "Type(" ++ quoted name ++ ")"
  | .collection name className =>
    let shown :=
      match className with
      | some c => "Some(" ++ quoted c ++ ")"
      | none => "None"
    "Collection \x7b collection: " ++ quoted name ++ ", class_name: " ++ shown ++ " \x7d"

/-- A reference in messages. -/
def Reference.display (r : Reference) : String :=
  "<ref " ++ r.target.display ++ " " ++ r.id.text ++ ">"

mutual

/-- The reading of a value in messages. -/
def Reading.display : Reading → String
  | .null => "null"
  | .bool b => if b then "true" else "false"
  | .int n => String.ofList (Json.integerText n.toInt)
  | .float x => x.text Layout.display
  | .string s => s
  | .datetime i => i.text
  | .list items => "[" ++ joinStrings ", " (displayItems items) ++ "]"
  | .dict entries => "\x7b" ++ joinStrings ", " (displayEntries entries) ++ "\x7d"
  | .document doc => "<" ++ doc.type.name ++ ">"
  | .reference r => r.display
  | .linked doc => "<" ++ doc.type.name ++ " (linked)>"
termination_by structural v => v

/-- The items of a list in messages. -/
def displayItems : List Reading → List String
  | [] => []
  | v :: vs => v.display :: displayItems vs
termination_by structural vs => vs

/-- The entries of a dict in messages. -/
def displayEntries : List (String × Reading) → List String
  | [] => []
  | (k, v) :: rest => (k ++ ": " ++ v.display) :: displayEntries rest
termination_by structural es => es

end

/-- A value in messages. -/
def Value.display (v : Value) : String :=
  v.reading.display

end DocumentMapper
