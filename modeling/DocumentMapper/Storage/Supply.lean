import DocumentMapper.Error

/-!
# Generators

Defaults can be generated: each time one is taken, the generator gives its next value. A `Supply`
knows how many values each generator has given. A computation that may take such a default is a
`Drawing`: what was drawn stays drawn, also when the computation fails later.
-/

namespace DocumentMapper

/-- How many values each generator has given, by its key. -/
structure Supply where
  drawn : Nat → Nat

namespace Supply

/-- The supply from which nothing was drawn. -/
def fresh : Supply := ⟨fun _ => 0⟩

instance : Inhabited Supply := ⟨fresh⟩

/-- The supply after one more value of a generator. -/
def advance (s : Supply) (key : Nat) : Supply :=
  ⟨fun k => if k = key then s.drawn k + 1 else s.drawn k⟩

end Supply

/-- A computation that may draw from generators and may fail. -/
abbrev Drawing (α : Type) := ExceptT Error (StateM Supply) α

namespace Drawing

/-- Draws from a generator: which of its values comes next, counted from zero. -/
def draw (key : Nat) : Drawing Nat := do
  let s ← get
  set (s.advance key)
  return s.drawn key

/-- The outcome from a supply, and the supply afterwards. -/
def runFrom {α : Type} (x : Drawing α) (s : Supply) : Except Error α × Supply :=
  StateT.run (ExceptT.run x) s

/-- A computation that draws nothing. -/
def ofExcept {α : Type} (x : Except Error α) : Drawing α :=
  ExceptT.mk (pure x)

end Drawing

end DocumentMapper
