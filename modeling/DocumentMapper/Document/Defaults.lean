import DocumentMapper.Storage.Supply
import DocumentMapper.Value.Basic

/-!
# Filling in defaults

A document takes the defaults of its declared fields for the attributes that it lacks, in the order
of the fields. After that the embedded documents among its values do the same, in the order of the
attributes; those of a default too.

Each value is first turned into its completion, and each default into the completion that follows
once it has been taken. So the defaults of a document are taken before those inside its values.
-/

namespace DocumentMapper

/-- Produces a value with all defaults. -/
abbrev Completion := Drawing Value

/-- Runs completions in the order of their keys. -/
def completeAll : List (String × Completion) → Drawing (List (String × Value))
  | [] => return []
  | (k, complete) :: rest => do return (k, ← complete) :: (← completeAll rest)

/-- The default of a field as it is declared, if there is one. -/
def Field.defaultValue (f : Field) : Drawing (Option Value) :=
  match f.default with
  | none => return none
  | some (.fixed v) => return some v
  | some (.generated key stream) => do return some (stream (← Drawing.draw key))

mutual

/-- The value with defaults in its embedded documents. -/
def Value.completed : Value → Drawing Value
  | .document doc => do return .document (← doc.completed)
  | .list items => do return .list (← completedItems items)
  | .dict entries => do return .dict (← completeAll (completionsOf entries))
  | v => return v
termination_by structural v => v

/-- Some values with defaults in their embedded documents. -/
def completedItems : List Value → Drawing (List Value)
  | [] => return []
  | v :: vs => do return (← v.completed) :: (← completedItems vs)
termination_by structural vs => vs

/-- The completions of some entries. -/
def completionsOf : List (String × Value) → List (String × Completion)
  | [] => []
  | (k, v) :: rest => (k, v.completed) :: completionsOf rest
termination_by structural es => es

/-- The document with the defaults of the attributes that it lacks. -/
def Document.completed : Document → Drawing Document
  | ⟨type, values, dirty, raw⟩ => do
    let completions ← type.addDefaults (completionsOf values)
    return ⟨type, ← completeAll completions, dirty, raw⟩
termination_by structural d => d

/-- Adds the defaults of a type to the completions of the attributes that a document has. -/
def DocumentType.addDefaults :
    DocumentType → List (String × Completion) → Drawing (List (String × Completion))
  | ⟨_, _, _, fields, _, _, _, _⟩, completions => addFieldDefaults fields completions
termination_by structural t => t

/-- Adds the defaults of some fields. -/
def addFieldDefaults :
    List Field → List (String × Completion) → Drawing (List (String × Completion))
  | [], completions => return completions
  | f :: fs, completions => do addFieldDefaults fs (← f.addDefault completions)
termination_by structural fs => fs

/-- Adds the default of a field, if it has one and the attribute is missing. -/
def Field.addDefault : Field → List (String × Completion) → Drawing (List (String × Completion))
  | ⟨_, _, _, _, none, _⟩, completions => return completions
  | ⟨name, _, _, _, some d, _⟩, completions => do
    if Entries.contains completions name then return completions
    else return Entries.insertSorted completions name (← d.take)
termination_by structural f => f

/-- Takes a default: what it is, to be completed. -/
def Default.take : Default → Drawing Completion
  | .fixed v => return v.completed
  | .generated key stream => do
    let n ← Drawing.draw key
    return (stream n).completed
termination_by structural d => d

end

end DocumentMapper
