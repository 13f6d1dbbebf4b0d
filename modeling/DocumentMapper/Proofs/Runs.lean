import DocumentMapper.Mapper.Session

/-!
# Running computations

A `Drawing` and a `Work` are opened in one way only: by running them from a supply or from a
session. The lemmas here run the pieces that such computations are made of, and take a successful
run of a composed computation apart into the runs of its pieces.

## Main results

* `Drawing.runFrom_bind_eq_ok`, `Work.runFrom_bind_eq_ok`: a composed computation succeeds exactly
  when its pieces do, one after the other;
* `Drawing.Gives`, `Drawing.Ends`, `Drawing.Yields`: what a computation can come out with, what it
  always comes out with, and that it draws nothing.
-/

namespace DocumentMapper

variable {α β : Type}

/-- A composed computation succeeds exactly when both pieces do. -/
theorem bind_eq_ok {ε : Type} {x : Except ε α} {f : α → Except ε β} {b : β} :
    (x >>= f) = .ok b ↔ ∃ a, x = .ok a ∧ f a = .ok b := by
  cases x <;> simp [bind, Except.bind]

@[simp] theorem mapError_ok {ε ε' : Type} (a : α) (f : ε → ε') :
    (Except.ok a : Except ε α).mapError f = .ok a :=
  rfl

@[simp] theorem mapError_error {ε ε' : Type} (cause : ε) (f : ε → ε') :
    (Except.error cause : Except ε α).mapError f = .error (f cause) :=
  rfl

/-- Renaming the errors of a computation does not make it succeed. -/
@[simp] theorem mapError_eq_ok {ε ε' : Type} {x : Except ε α} {f : ε → ε'} {a : α} :
    x.mapError f = .ok a ↔ x = .ok a := by
  cases x <;> simp

/-- Renaming the errors of a computation does not make it fail. -/
theorem mapError_eq_error {ε ε' : Type} {x : Except ε α} {f : ε → ε'} {cause : ε'} :
    x.mapError f = .error cause ↔ ∃ cause', x = .error cause' ∧ f cause' = cause := by
  cases x <;> simp

namespace Drawing

@[simp] theorem runFrom_pure (a : α) (s : Supply) : (pure a : Drawing α).runFrom s = (.ok a, s) :=
  rfl

@[simp] theorem runFrom_throw (cause : Error) (s : Supply) :
    (throw cause : Drawing α).runFrom s = (.error cause, s) :=
  rfl

/-- A composed computation runs its second piece where the first one has ended. -/
theorem runFrom_bind (x : Drawing α) (f : α → Drawing β) (s : Supply) :
    (x >>= f).runFrom s =
      match x.runFrom s with
      | (.ok a, s) => (f a).runFrom s
      | (.error cause, s) => (.error cause, s) := by
  change (ExceptT.bindCont f (x.runFrom s).1).run (x.runFrom s).2 = _
  rcases x.runFrom s with ⟨cause | a, t⟩ <;> rfl

@[simp] theorem runFrom_map (f : α → β) (x : Drawing α) (s : Supply) :
    (f <$> x).runFrom s = ((x.runFrom s).1.map f, (x.runFrom s).2) := by
  rw [← bind_pure_comp, runFrom_bind]
  rcases x.runFrom s with ⟨cause | a, t⟩ <;> rfl

/-- A composed computation succeeds exactly when both pieces do. -/
theorem runFrom_bind_eq_ok {x : Drawing α} {f : α → Drawing β} {s t : Supply} {b : β} :
    (x >>= f).runFrom s = (.ok b, t) ↔
      ∃ a u, x.runFrom s = (.ok a, u) ∧ (f a).runFrom u = (.ok b, t) := by
  rw [runFrom_bind]
  rcases x.runFrom s with ⟨cause | a, u⟩
  · simp
  · constructor
    · intro h
      exact ⟨a, u, rfl, h⟩
    · rintro ⟨a', u', h, h'⟩
      obtain ⟨rfl, rfl⟩ : a = a' ∧ u = u' := by simpa using h
      exact h'

/-! ### Certain outcomes -/

/-- A computation never fails, and its outcomes have a property. -/
def Ends (x : Drawing α) (P : α → Prop) : Prop :=
  ∀ s, ∃ a t, x.runFrom s = (.ok a, t) ∧ P a

theorem Ends.pure {a : α} {P : α → Prop} (h : P a) : (pure a : Drawing α).Ends P :=
  fun s => ⟨a, s, rfl, h⟩

/-- A composed computation never fails if its pieces do not. -/
theorem Ends.bind {x : Drawing α} {f : α → Drawing β} {P : α → Prop} {Q : β → Prop}
    (hx : x.Ends P) (hf : ∀ a, P a → (f a).Ends Q) : (x >>= f).Ends Q := by
  intro s
  obtain ⟨a, u, ha, hP⟩ := hx s
  obtain ⟨b, t, hb, hQ⟩ := hf a hP u
  exact ⟨b, t, runFrom_bind_eq_ok.mpr ⟨a, u, ha, hb⟩, hQ⟩

theorem ends_draw (key : Nat) : (draw key).Ends fun _ => True :=
  fun _ => ⟨_, _, rfl, trivial⟩

/-! ### Possible outcomes -/

/-- A computation has the outcome from some supply. -/
def Gives (x : Drawing α) (a : α) : Prop :=
  ∃ s t, x.runFrom s = (.ok a, t)

/-- A computation has at most one outcome, whatever the supply. -/
def Determined (x : Drawing α) : Prop :=
  ∀ a b, x.Gives a → x.Gives b → a = b

/-- A computation that comes out the same from every supply has one outcome. -/
theorem Determined.of_runs {x : Drawing α} {a : α} (h : ∀ s, ∃ t, x.runFrom s = (.ok a, t)) :
    x.Determined := by
  have hsame : ∀ b, x.Gives b → b = a := by
    rintro b ⟨s, t, hrun⟩
    obtain ⟨t', hrun'⟩ := h s
    rw [hrun] at hrun'
    exact Except.ok.inj (Prod.mk.inj hrun').1
  exact fun b c hb hc => (hsame b hb).trans (hsame c hc).symm

@[simp] theorem gives_pure {a b : α} : (pure a : Drawing α).Gives b ↔ b = a := by
  simp [Gives, eq_comm]

@[simp] theorem not_gives_throw {cause : Error} {a : α} :
    ¬ (throw cause : Drawing α).Gives a := by
  simp [Gives]

/-- The outcome of a composed computation comes from outcomes of its pieces. -/
theorem Gives.of_bind {x : Drawing α} {f : α → Drawing β} {b : β} (h : (x >>= f).Gives b) :
    ∃ a, x.Gives a ∧ (f a).Gives b := by
  obtain ⟨s, t, hrun⟩ := h
  obtain ⟨a, u, hx, hf⟩ := runFrom_bind_eq_ok.mp hrun
  exact ⟨a, ⟨s, u, hx⟩, ⟨u, t, hf⟩⟩

/-- The outcome of a computation with a result made of it is made of an outcome. -/
@[simp] theorem gives_map {f : α → β} {x : Drawing α} {b : β} :
    (f <$> x).Gives b ↔ ∃ a, x.Gives a ∧ f a = b := by
  simp only [Gives, runFrom_map]
  constructor
  · rintro ⟨s, t, hrun⟩
    rcases hx : x.runFrom s with ⟨cause | a, u⟩
    · simp [hx, Except.map] at hrun
    · simp only [hx, Except.map, Prod.mk.injEq, Except.ok.injEq] at hrun
      exact ⟨a, ⟨s, u, hx⟩, hrun.1⟩
  · rintro ⟨a, ⟨s, t, hrun⟩, rfl⟩
    exact ⟨s, t, by simp [hrun, Except.map]⟩

/-! ### Certain outcomes that draw nothing -/

/-- The computation succeeds with the outcome from every supply and draws nothing. -/
def Yields (x : Drawing α) (a : α) : Prop :=
  ∀ s, x.runFrom s = (.ok a, s)

theorem Yields.pure (a : α) : Yields (pure a) a :=
  fun _ => rfl

theorem Yields.bind {x : Drawing α} {f : α → Drawing β} {a : α} {b : β} (hx : x.Yields a)
    (hf : (f a).Yields b) : (x >>= f).Yields b :=
  fun s => runFrom_bind_eq_ok.mpr ⟨a, s, hx s, hf s⟩

theorem Yields.gives {x : Drawing α} {a : α} (h : x.Yields a) : x.Gives a :=
  ⟨.fresh, .fresh, h .fresh⟩

/-- The outcome is the only one. -/
theorem Yields.eq_of_gives {x : Drawing α} {a b : α} (h : x.Yields a) (hb : x.Gives b) : b = a := by
  obtain ⟨s, t, hrun⟩ := hb
  rw [h s] at hrun
  exact (Except.ok.inj (Prod.mk.inj hrun).1).symm

end Drawing

namespace Work

@[simp] theorem runFrom_pure (a : α) (s : Session) : (pure a : Work α).runFrom s = (.ok a, s) :=
  rfl

@[simp] theorem runFrom_throw (cause : Error) (s : Session) :
    (throw cause : Work α).runFrom s = (.error cause, s) :=
  rfl

@[simp] theorem runFrom_ofExcept (x : Except Error α) (s : Session) :
    (ofExcept x).runFrom s = (x, s) :=
  rfl

@[simp] theorem runFrom_drawing (x : Drawing α) (s : Session) :
    (drawing x).runFrom s = ((x.runFrom s.supply).1, { s with supply := (x.runFrom s.supply).2 }) :=
  rfl

@[simp] theorem runFrom_onStore (x : Store → Except Error α × Store) (s : Session) :
    (onStore x).runFrom s = ((x s.store).1, { s with store := (x s.store).2 }) :=
  rfl

@[simp] theorem runFrom_change (x : Store → Except StoreError α × Store) (s : Session) :
    (change x).runFrom s =
      ((x s.store).1.mapError .store, { s with store := (x s.store).2 }) :=
  rfl

@[simp] theorem runFrom_ask (x : Store → Except StoreError α) (s : Session) :
    (ask x).runFrom s = ((x s.store).mapError .store, s) :=
  rfl

/-- A composed computation runs its second piece where the first one has ended. -/
theorem runFrom_bind (x : Work α) (f : α → Work β) (s : Session) :
    (x >>= f).runFrom s =
      match x.runFrom s with
      | (.ok a, s) => (f a).runFrom s
      | (.error cause, s) => (.error cause, s) := by
  change (ExceptT.bindCont f (x.runFrom s).1).run (x.runFrom s).2 = _
  rcases x.runFrom s with ⟨cause | a, t⟩ <;> rfl

@[simp] theorem runFrom_map (f : α → β) (x : Work α) (s : Session) :
    (f <$> x).runFrom s = ((x.runFrom s).1.map f, (x.runFrom s).2) := by
  rw [← bind_pure_comp, runFrom_bind]
  rcases x.runFrom s with ⟨cause | a, t⟩ <;> rfl

/-- A composed computation succeeds exactly when both pieces do. -/
theorem runFrom_bind_eq_ok {x : Work α} {f : α → Work β} {s t : Session} {b : β} :
    (x >>= f).runFrom s = (.ok b, t) ↔
      ∃ a u, x.runFrom s = (.ok a, u) ∧ (f a).runFrom u = (.ok b, t) := by
  rw [runFrom_bind]
  rcases x.runFrom s with ⟨cause | a, u⟩
  · simp
  · constructor
    · intro h
      exact ⟨a, u, rfl, h⟩
    · rintro ⟨a', u', h, h'⟩
      obtain ⟨rfl, rfl⟩ : a = a' ∧ u = u' := by simpa using h
      exact h'

/-- A composed computation fails exactly when one of its pieces does. -/
theorem runFrom_bind_eq_error {x : Work α} {f : α → Work β} {s t : Session} {cause : Error} :
    (x >>= f).runFrom s = (.error cause, t) ↔
      x.runFrom s = (.error cause, t) ∨
        ∃ a u, x.runFrom s = (.ok a, u) ∧ (f a).runFrom u = (.error cause, t) := by
  rw [runFrom_bind]
  rcases x.runFrom s with ⟨cause | a, u⟩
  · simp
  · constructor
    · intro h
      exact .inr ⟨a, u, rfl, h⟩
    · rintro (h | ⟨a', u', h, h'⟩)
      · simp at h
      · obtain ⟨rfl, rfl⟩ : a = a' ∧ u = u' := by simpa using h
        exact h'

end Work

end DocumentMapper
