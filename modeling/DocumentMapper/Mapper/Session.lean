import DocumentMapper.Storage.Supply
import DocumentMapper.Store.Update

/-!
# Work on a store

A `Session` is what saving and loading documents changes: the store, and the generators behind the
defaults. A `Work` is a computation on a session that may fail; what it did before it failed stays
done.
-/

namespace DocumentMapper

/-- A store and the generators of defaults. -/
structure Session where
  store : Store
  supply : Supply

namespace Session

/-- An empty store and fresh generators. -/
def empty : Session := ⟨.empty, .fresh⟩

instance : Inhabited Session := ⟨empty⟩

end Session

/-- A computation on a session that may fail. -/
abbrev Work (α : Type) := ExceptT Error (StateM Session) α

namespace Work

/-- The outcome from a session, and the session afterwards. -/
def runFrom {α : Type} (x : Work α) (s : Session) : Except Error α × Session :=
  StateT.run (ExceptT.run x) s

/-- A computation that changes nothing. -/
def ofExcept {α : Type} (x : Except Error α) : Work α :=
  ExceptT.mk (pure x)

/-- A computation that draws from generators. -/
def drawing {α : Type} (x : Drawing α) : Work α :=
  ExceptT.mk fun s =>
    let (result, supply) := x.runFrom s.supply
    (result, { s with supply })

/-- A computation on the store. -/
def onStore {α : Type} (x : Store → Except Error α × Store) : Work α :=
  ExceptT.mk fun s =>
    let (result, store) := x s.store
    (result, { s with store })

/-- A question to the store. -/
def ask {α : Type} (x : Store → Except StoreError α) : Work α :=
  onStore fun store => ((x store).mapError .store, store)

/-- A change of the store. -/
def change {α : Type} (x : Store → Except StoreError α × Store) : Work α :=
  onStore fun store =>
    let (result, store) := x store
    (result.mapError .store, store)

end Work

end DocumentMapper
