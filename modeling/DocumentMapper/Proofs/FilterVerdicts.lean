import DocumentMapper.Filter.Matching

/-!
# What filters answer

Evaluating a filter answers yes, answers no or fails. Whether it answers yes can be told entry by
entry, operator by operator and clause by clause, whatever their order: all of them have to. A no
comes from one part that answers no. Where an evaluation fails depends on the order: at a part that
fails, if the parts in front of it have let the evaluation go on.

Connectives and nested conditions count levels, and a filter that is nested too deep is not
answered. Otherwise the level from which the counting starts makes no difference.

## Main results

* `entriesHold_deeper`, `filterHolds_deeper`: a filter comes out at some depth as at any smaller one,
  unless it is nested too deep there;
* `entriesHold_eq_true_iff`, `conditionHolds_operators`: a document meets a filter when it meets
  every entry, and values meet an object of operators when they meet every one;
* `entryHolds_and_eq_true_iff`, `exists_of_entryHolds_and_eq_false`: what the answer of AND says
  about its clauses;
* `eq_error_iff_getsTo`: where an evaluation fails that goes from part to part.
-/

namespace DocumentMapper

/-! ### Single operators and entries -/

/-- Whether values meet one operator of a map. -/
def operatorHolds (op : String) (operand : Json) (anyCase : Bool) (values : List Json)
    (depth : Nat) : Except StoreError Bool :=
  match op with
  | "$in" => isAmong op operand values
  | "$nin" => (isAmong op operand values).map (!·)
  | "$not" => (conditionHolds operand values (depth + 1)).map (!·)
  | "$elemMatch" => findAny (fun item => itemHolds operand item (depth + 1)) (itemsOf values)
  | _ => plainOperator op operand anyCase values

/-- Whether a document meets one entry of a filter. -/
def entryHolds (key : String) (condition : Json) (doc : Object) (depth : Nat) :
    Except StoreError Bool :=
  match key with
  | "$and" => (clauseAnswers key condition false doc (depth + 1)).map (!·)
  | "$or" => clauseAnswers key condition true doc (depth + 1)
  | "$nor" => (clauseAnswers key condition true doc (depth + 1)).map (!·)
  | _ =>
    if Text.beginsWith "$" key then throw (.topLevelOperator key)
    else conditionHolds condition (doc.lookup key) depth

/-- A map of operators is gone through from the first operator on. -/
theorem operatorsHold_cons (op : String) (operand : Json) (rest : List (String × Json))
    (anyCase : Bool) (values : List Json) (depth : Nat) :
    operatorsHold ((op, operand) :: rest) anyCase values depth =
      operatorHolds op operand anyCase values depth >>= fun holds =>
        if holds then operatorsHold rest anyCase values depth else return false := by
  simp only [operatorsHold]
  split
  · rfl
  · rfl
  · rfl
  · rfl
  · simp only [operatorHolds]

/-- A filter is gone through from the first entry on. -/
theorem entriesHold_cons (key : String) (condition : Json) (rest : List (String × Json))
    (doc : Object) (depth : Nat) :
    entriesHold ((key, condition) :: rest) doc depth =
      entryHolds key condition doc depth >>= fun holds =>
        if holds then entriesHold rest doc depth else return false := by
  simp only [entriesHold]
  split
  · rfl
  · rfl
  · rfl
  · simp only [entryHolds]
    split <;> rfl

/-! ### Answers at other depths -/

/-- A test that is nested deeper comes out like another one, unless it is nested too deep. -/
def NestedLike (x y : Except StoreError Bool) : Prop :=
  y = x ∨ y = .error (.nesting nestingLimit)

namespace NestedLike

variable {x y : Except StoreError Bool}

theorem refl (x : Except StoreError Bool) : NestedLike x x :=
  .inl rfl

/-- An answer that is given deeper is given higher up, too. -/
theorem answer (h : NestedLike x y) {b : Bool} (hy : y = .ok b) : x = .ok b := by
  rcases h with rfl | h
  · exact hy
  · rw [h] at hy
    cases hy

theorem map (h : NestedLike x y) (f : Bool → Bool) : NestedLike (x.map f) (y.map f) := by
  rcases h with rfl | rfl
  · exact .refl _
  · exact .inr rfl

theorem bind {f g : Bool → Except StoreError Bool} (h : NestedLike x y)
    (hfg : ∀ a, NestedLike (f a) (g a)) : NestedLike (x >>= f) (y >>= g) := by
  rcases h with rfl | rfl
  · cases y with
    | error cause => exact .refl _
    | ok a => exact hfg a
  · exact .inr rfl

/-- What is refused above a depth comes out alike above it. -/
theorem limited {d d' : Nat} (hd : d ≤ d') (h : NestedLike x y) :
    NestedLike (if nestingLimit < d then throw (.nesting nestingLimit) else x)
      (if nestingLimit < d' then throw (.nesting nestingLimit) else y) := by
  split
  · rw [if_pos (by omega)]
    exact .refl _
  · split
    · exact .inr rfl
    · exact h

end NestedLike

/-- A search comes out like another one if its test does. -/
theorem nestedLike_findAny {α : Type} {f g : α → Except StoreError Bool} {xs : List α}
    (h : ∀ x, NestedLike (f x) (g x)) : NestedLike (findAny f xs) (findAny g xs) := by
  induction xs with
  | nil => exact .refl _
  | cons x rest ih =>
    refine .bind (h x) fun a => ?_
    cases a
    · exact ih
    · exact .refl _

mutual

/-- A condition on values comes out at some depth as at a smaller one, unless that is too deep. -/
theorem conditionHolds_deeper : ∀ (j : Json) (values : List Json) {d d' : Nat}, d ≤ d' →
    NestedLike (conditionHolds j values d) (conditionHolds j values d')
  | .object entries, values, d, d', h => by
    have hentries := operatorsHold_deeper entries (ignoresCase entries) values h
    simp only [conditionHolds]
    split
    · exact hentries
    · exact .refl _
  | .null, _, _, _, _ => .refl _
  | .bool _, _, _, _, _ => .refl _
  | .whole _, _, _, _, _ => .refl _
  | .float _, _, _, _, _ => .refl _
  | .string _, _, _, _, _ => .refl _
  | .array _, _, _, _, _ => .refl _
termination_by structural j => j

/-- The same for maps of operators. -/
theorem operatorsHold_deeper : ∀ (es : List (String × Json)) (anyCase : Bool)
    (values : List Json) {d d' : Nat}, d ≤ d' →
    NestedLike (operatorsHold es anyCase values d) (operatorsHold es anyCase values d')
  | [], _, _, _, _, _ => .refl _
  | (op, operand) :: rest, anyCase, values, d, d', h => by
    have hcondition := conditionHolds_deeper operand values (Nat.succ_le_succ h)
    have hitem := fun item => itemHolds_deeper operand item (Nat.succ_le_succ h)
    have hrest := operatorsHold_deeper rest anyCase values h
    rw [operatorsHold_cons, operatorsHold_cons]
    refine .bind ?_ fun holds => ?_
    · unfold operatorHolds
      split
      · exact .refl _
      · exact .refl _
      · exact hcondition.map _
      · exact nestedLike_findAny hitem
      · exact .refl _
    · cases holds
      · exact .refl _
      · exact hrest
termination_by structural es => es

/-- The same for an item of an array. -/
theorem itemHolds_deeper : ∀ (j item : Json) {d d' : Nat}, d ≤ d' →
    NestedLike (itemHolds j item d) (itemHolds j item d')
  | .object entries, item, d, d', h => by
    have hoperators := operatorsHold_deeper entries (ignoresCase entries) [item] h
    have hentries := fun doc => entriesHold_deeper entries doc h
    simp only [itemHolds]
    split
    · exact hoperators
    · cases item with
      | object element => exact .limited h (hentries element)
      | _ => exact .refl _
  | .null, _, _, _, _ => .refl _
  | .bool _, _, _, _, _ => .refl _
  | .whole _, _, _, _, _ => .refl _
  | .float _, _, _, _, _ => .refl _
  | .string _, _, _, _, _ => .refl _
  | .array _, _, _, _, _ => .refl _
termination_by structural j => j

/-- The same for the entries of a filter. -/
theorem entriesHold_deeper : ∀ (es : List (String × Json)) (doc : Object) {d d' : Nat},
    d ≤ d' → NestedLike (entriesHold es doc d) (entriesHold es doc d')
  | [], _, _, _, _ => .refl _
  | (key, condition) :: rest, doc, d, d', h => by
    have hclauses := fun answer => clauseAnswers_deeper key condition answer doc
      (Nat.succ_le_succ h)
    have hcondition := fun values => conditionHolds_deeper condition values h
    have hrest := entriesHold_deeper rest doc h
    rw [entriesHold_cons, entriesHold_cons]
    refine .bind ?_ fun holds => ?_
    · unfold entryHolds
      split
      · exact (hclauses false).map _
      · exact hclauses true
      · exact (hclauses true).map _
      · split
        · exact .refl _
        · exact hcondition _
    · cases holds
      · exact .refl _
      · exact hrest
termination_by structural es => es

/-- The same for the clauses of a connective. -/
theorem clauseAnswers_deeper (op : String) : ∀ (j : Json) (answer : Bool) (doc : Object)
    {d d' : Nat}, d ≤ d' →
    NestedLike (clauseAnswers op j answer doc d) (clauseAnswers op j answer doc d')
  | .array clauses, answer, doc, d, d', h => by
    have hclauses := anyAnswers_deeper clauses answer doc h
    simp only [clauseAnswers]
    split
    · exact hclauses
    · exact .refl _
  | .null, _, _, _, _, _ => .refl _
  | .bool _, _, _, _, _, _ => .refl _
  | .whole _, _, _, _, _, _ => .refl _
  | .float _, _, _, _, _, _ => .refl _
  | .string _, _, _, _, _, _ => .refl _
  | .object _, _, _, _, _, _ => .refl _
termination_by structural j => j

/-- The same for a search among clauses. -/
theorem anyAnswers_deeper : ∀ (clauses : List Json) (answer : Bool) (doc : Object)
    {d d' : Nat}, d ≤ d' →
    NestedLike (anyAnswers clauses answer doc d) (anyAnswers clauses answer doc d')
  | [], _, _, _, _, _ => .refl _
  | clause :: rest, answer, doc, d, d', h => by
    have hclause := filterHolds_deeper clause doc h
    have hrest := anyAnswers_deeper rest answer doc h
    simp only [anyAnswers]
    refine .bind hclause fun holds => ?_
    split
    · exact .refl _
    · exact hrest
termination_by structural clauses => clauses

/-- The same for a filter among clauses. -/
theorem filterHolds_deeper : ∀ (j : Json) (doc : Object) {d d' : Nat}, d ≤ d' →
    NestedLike (filterHolds j doc d) (filterHolds j doc d')
  | .object entries, doc, d, d', h => by
    have hentries := entriesHold_deeper entries doc h
    simp only [filterHolds]
    exact .limited h hentries
  | .null, _, _, _, _ => .refl _
  | .bool _, _, _, _, _ => .refl _
  | .whole _, _, _, _, _ => .refl _
  | .float _, _, _, _, _ => .refl _
  | .string _, _, _, _, _ => .refl _
  | .array _, _, _, _, _ => .refl _
termination_by structural j => j

end

/-! ### Tests that have to hold together -/

/-- The second of two tests counts where the first one answers yes. -/
theorem bind_and_eq_ok {x y : Except StoreError Bool} {b : Bool} :
    (x >>= fun holds => if holds then y else return false) = .ok b ↔
      (x = .ok true ∧ y = .ok b) ∨ (x = .ok false ∧ b = false) := by
  cases x with
  | error cause => simp [bind, Except.bind]
  | ok a =>
    cases a
    · simp [bind, Except.bind, pure, Except.pure, eq_comm]
    · simp [bind, Except.bind]

/-- Values meet a map of operators when they meet every one. -/
theorem operatorsHold_eq_true_iff {es : List (String × Json)} {anyCase : Bool}
    {values : List Json} {depth : Nat} :
    operatorsHold es anyCase values depth = .ok true ↔
      ∀ e ∈ es, operatorHolds e.1 e.2 anyCase values depth = .ok true := by
  induction es with
  | nil => simp [operatorsHold, pure, Except.pure]
  | cons e rest ih =>
    obtain ⟨op, operand⟩ := e
    rw [operatorsHold_cons, bind_and_eq_ok, ih]
    simp

/-- A document meets a filter when it meets every entry. -/
theorem entriesHold_eq_true_iff {es : List (String × Json)} {doc : Object} {depth : Nat} :
    entriesHold es doc depth = .ok true ↔
      ∀ e ∈ es, entryHolds e.1 e.2 doc depth = .ok true := by
  induction es with
  | nil => simp [entriesHold, pure, Except.pure]
  | cons e rest ih =>
    obtain ⟨key, condition⟩ := e
    rw [entriesHold_cons, bind_and_eq_ok, ih]
    simp

/-- A document that does not meet a filter fails an entry. -/
theorem exists_of_entriesHold_eq_false {es : List (String × Json)} {doc : Object} {depth : Nat}
    (h : entriesHold es doc depth = .ok false) :
    ∃ e ∈ es, entryHolds e.1 e.2 doc depth = .ok false := by
  induction es with
  | nil => simp [entriesHold, pure, Except.pure] at h
  | cons e rest ih =>
    obtain ⟨key, condition⟩ := e
    rw [entriesHold_cons, bind_and_eq_ok] at h
    rcases h with ⟨-, hrest⟩ | ⟨hfirst, -⟩
    · obtain ⟨e, he, hfalse⟩ := ih hrest
      exact ⟨e, List.mem_cons_of_mem _ he, hfalse⟩
    · exact ⟨_, List.mem_cons_self, hfirst⟩

/-! ### Clauses -/

theorem filterHolds_object_eq_ok {entries doc : Object} {depth : Nat} {b : Bool}
    (h : filterHolds (.object entries) doc depth = .ok b) :
    entriesHold entries doc depth = .ok b := by
  simp only [filterHolds] at h
  split at h
  · cases h
  · exact h

/-- A filter with one entry is answered like the entry. -/
theorem entryHolds_of_filterHolds {key : String} {j : Json} {doc : Object} {depth : Nat} {b : Bool}
    (h : filterHolds (.object [(key, j)]) doc depth = .ok b) :
    entryHolds key j doc depth = .ok b := by
  have hentries := filterHolds_object_eq_ok h
  rw [entriesHold_cons, bind_and_eq_ok] at hentries
  rcases hentries with ⟨hfirst, hrest⟩ | ⟨hfirst, rfl⟩
  · rw [hfirst]
    exact hrest
  · exact hfirst

theorem Object.meets_eq (doc filter : Object) : doc.meets filter = entriesHold filter doc 0 := by
  simp [meets, meetsAt, filterHolds]

theorem anyAnswers_cons {clause : Json} {rest : List Json} {answer : Bool} {doc : Object}
    {depth : Nat} {b : Bool} :
    anyAnswers (clause :: rest) answer doc depth = .ok b ↔
      (filterHolds clause doc depth = .ok answer ∧ b = true) ∨
        (filterHolds clause doc depth = .ok (!answer) ∧
          anyAnswers rest answer doc depth = .ok b) := by
  simp only [anyAnswers]
  cases filterHolds clause doc depth with
  | error cause => simp [bind, Except.bind]
  | ok a => cases a <;> cases answer <;> simp [bind, Except.bind, pure, Except.pure, eq_comm]

theorem exists_of_anyAnswers_eq_true {clauses : List Json} {answer : Bool} {doc : Object}
    {depth : Nat} (h : anyAnswers clauses answer doc depth = .ok true) :
    ∃ clause ∈ clauses, filterHolds clause doc depth = .ok answer := by
  induction clauses with
  | nil => simp [anyAnswers, pure, Except.pure] at h
  | cons clause rest ih =>
    rcases anyAnswers_cons.mp h with ⟨hfirst, -⟩ | ⟨-, hrest⟩
    · exact ⟨clause, List.mem_cons_self, hfirst⟩
    · obtain ⟨clause, hclause, hanswer⟩ := ih hrest
      exact ⟨clause, List.mem_cons_of_mem _ hclause, hanswer⟩

theorem anyAnswers_eq_false_iff {clauses : List Json} {answer : Bool} {doc : Object}
    {depth : Nat} :
    anyAnswers clauses answer doc depth = .ok false ↔
      ∀ clause ∈ clauses, filterHolds clause doc depth = .ok (!answer) := by
  induction clauses with
  | nil => simp [anyAnswers, pure, Except.pure]
  | cons clause rest ih =>
    rw [anyAnswers_cons, ih]
    simp

/-- A connective is answered by a search among its clauses. -/
theorem anyAnswers_of_clauseAnswers {op : String} {clauses : List Json} {answer : Bool}
    {doc : Object} {depth : Nat} {b : Bool}
    (h : clauseAnswers op (.array clauses) answer doc depth = .ok b) :
    anyAnswers clauses answer doc depth = .ok b := by
  simp only [clauseAnswers] at h
  split at h
  · exact h
  · cases h

theorem map_answer_eq_ok {x : Except StoreError Bool} {f : Bool → Bool} {b : Bool} :
    x.map f = .ok b ↔ ∃ a, x = .ok a ∧ f a = b := by
  cases x <;> simp [Except.map]

/-- The operand of AND is an array wherever there is an answer. -/
theorem array_of_entryHolds_and {j : Json} {doc : Object} {depth : Nat} {b : Bool}
    (h : entryHolds "$and" j doc depth = .ok b) : ∃ clauses, j = .array clauses := by
  obtain ⟨a, ha, -⟩ := map_answer_eq_ok.mp h
  cases j with
  | array clauses => exact ⟨clauses, rfl⟩
  | _ => cases ha

/-- A document meets AND when it meets every clause. -/
theorem entryHolds_and_eq_true_iff {clauses : List Json} {doc : Object} {depth : Nat} :
    entryHolds "$and" (.array clauses) doc depth = .ok true ↔
      ∀ clause ∈ clauses, filterHolds clause doc (depth + 1) = .ok true := by
  constructor
  · intro h
    obtain ⟨a, ha, hnot⟩ := map_answer_eq_ok.mp h
    obtain rfl : a = false := by simpa using hnot
    exact anyAnswers_eq_false_iff.mp (anyAnswers_of_clauseAnswers ha)
  · intro h
    refine map_answer_eq_ok.mpr ⟨false, ?_, rfl⟩
    rw [clauseAnswers, if_pos]
    · exact anyAnswers_eq_false_iff.mpr h
    · rw [List.all_eq_true]
      intro clause hclause
      have hmeets := h clause hclause
      cases clause <;> first | rfl | cases hmeets

/-- A document that does not meet AND fails a clause. -/
theorem exists_of_entryHolds_and_eq_false {clauses : List Json} {doc : Object} {depth : Nat}
    (h : entryHolds "$and" (.array clauses) doc depth = .ok false) :
    ∃ clause ∈ clauses, filterHolds clause doc (depth + 1) = .ok false := by
  obtain ⟨a, ha, hnot⟩ := map_answer_eq_ok.mp h
  obtain rfl : a = true := by simpa using hnot
  exact exists_of_anyAnswers_eq_true (anyAnswers_of_clauseAnswers ha)

/-- What fails AND of some clauses and more, fails AND of the former or one of the latter. -/
theorem entryHolds_and_append_eq_false {clauses more : List Json} {doc : Object} {depth : Nat}
    (h : entryHolds "$and" (.array (clauses ++ more)) doc depth = .ok false) :
    entryHolds "$and" (.array clauses) doc depth = .ok false ∨
      ∃ clause ∈ more, filterHolds clause doc (depth + 1) = .ok false := by
  simp only [entryHolds, map_answer_eq_ok, clauseAnswers, List.all_append] at h ⊢
  obtain ⟨a, ha, hnot⟩ := h
  obtain rfl : a = true := by simpa using hnot
  split at ha
  · rename_i hall
    rw [(Bool.and_eq_true_iff.mp hall).1]
    clear hall
    have hanswer : anyAnswers clauses false doc (depth + 1) = .ok true ∨
        ∃ clause ∈ more, filterHolds clause doc (depth + 1) = .ok false := by
      induction clauses with
      | nil => exact .inr (exists_of_anyAnswers_eq_true ha)
      | cons clause rest ih =>
        rcases anyAnswers_cons.mp ha with hfirst | ⟨hfirst, hrest⟩
        · exact .inl (anyAnswers_cons.mpr (.inl hfirst))
        · rcases ih hrest with hrest | hmore
          · exact .inl (anyAnswers_cons.mpr (.inr ⟨hfirst, hrest⟩))
          · exact .inr hmore
    rcases hanswer with htrue | hmore
    · exact .inl ⟨true, htrue, rfl⟩
    · exact .inr hmore
  · cases ha

/-! ### Operators -/

/-- Only a pattern asks whether case is ignored. -/
theorem operatorHolds_anyCase {op : String} (h : op ≠ "$regex") (operand : Json)
    (anyCase anyCase' : Bool) (values : List Json) (depth : Nat) :
    operatorHolds op operand anyCase values depth =
      operatorHolds op operand anyCase' values depth := by
  unfold operatorHolds
  split
  · rfl
  · rfl
  · rfl
  · rfl
  · unfold plainOperator
    split <;> first | rfl | exact absurd rfl h

/-- An object with operators is a condition on each of them. -/
theorem conditionHolds_operators {entries : Object} (h : isOperatorMap entries = true)
    (values : List Json) (depth : Nat) :
    conditionHolds (.object entries) values depth = .ok true ↔
      ∀ e ∈ entries, operatorHolds e.1 e.2 (ignoresCase entries) values depth = .ok true := by
  rw [conditionHolds, if_pos h, operatorsHold_eq_true_iff]

/-! ### Where an evaluation fails -/

section Parts

variable {α : Type} {part : α → Except StoreError Bool} {go : Bool}

/-- An evaluation that goes from part to part, as long as they give one answer, gets to a part. -/
def GetsTo (part : α → Except StoreError Bool) (go : Bool) (xs : List α) (x : α) : Prop :=
  ∃ before after, xs = before ++ x :: after ∧ ∀ y ∈ before, part y = .ok go

theorem GetsTo.mem {xs : List α} {x : α} (h : GetsTo part go xs x) : x ∈ xs := by
  obtain ⟨before, after, rfl, -⟩ := h
  simp

/-- **An evaluation that goes from part to part fails where it gets to a part that fails.** -/
theorem eq_error_iff_getsTo (eval : List α → Except StoreError Bool) (stop : Bool) {b : Bool}
    (hnil : eval [] = .ok b)
    (hcons : ∀ x rest, eval (x :: rest) =
      part x >>= fun a => if a = go then eval rest else .ok stop)
    {xs : List α} {cause : StoreError} :
    eval xs = .error cause ↔ ∃ x, GetsTo part go xs x ∧ part x = .error cause := by
  have hgo : ∀ x rest, part x = .ok go → eval (x :: rest) = eval rest := by
    intro x rest hx
    rw [hcons, hx]
    exact if_pos rfl
  constructor
  · intro h
    induction xs with
    | nil =>
      rw [hnil] at h
      cases h
    | cons x rest ih =>
      cases hx : part x with
      | error cause' =>
        rw [hcons, hx] at h
        cases h
        exact ⟨x, ⟨[], rest, rfl, by simp⟩, hx⟩
      | ok a =>
        by_cases ha : a = go
        · subst ha
          rw [hgo x rest hx] at h
          obtain ⟨y, ⟨before, after, rfl, hbefore⟩, hy⟩ := ih h
          exact ⟨y, ⟨x :: before, after, rfl, List.forall_mem_cons.mpr ⟨hx, hbefore⟩⟩, hy⟩
        · rw [hcons, hx] at h
          cases (if_neg ha).symm.trans h
  · rintro ⟨x, ⟨before, after, rfl, hbefore⟩, hx⟩
    induction before with
    | nil =>
      rw [List.nil_append, hcons, hx]
      rfl
    | cons y before ih =>
      obtain ⟨hy, hbefore⟩ := List.forall_mem_cons.mp hbefore
      rw [List.cons_append, hgo _ _ hy]
      exact ih hbefore

end Parts

/-- A filter fails at an entry, behind entries that hold. -/
theorem entriesHold_eq_error_iff {entries : List (String × Json)} {doc : Object} {depth : Nat}
    {cause : StoreError} :
    entriesHold entries doc depth = .error cause ↔
      ∃ e, GetsTo (fun e => entryHolds e.1 e.2 doc depth) true entries e ∧
        entryHolds e.1 e.2 doc depth = .error cause :=
  eq_error_iff_getsTo (fun es => entriesHold es doc depth) false rfl
    fun e rest => entriesHold_cons e.1 e.2 rest doc depth

/-- A map of operators fails at an operator, behind operators that are met. -/
theorem operatorsHold_eq_error_iff {entries : List (String × Json)} {anyCase : Bool}
    {values : List Json} {depth : Nat} {cause : StoreError} :
    operatorsHold entries anyCase values depth = .error cause ↔
      ∃ e, GetsTo (fun e => operatorHolds e.1 e.2 anyCase values depth) true entries e ∧
        operatorHolds e.1 e.2 anyCase values depth = .error cause :=
  eq_error_iff_getsTo (fun es => operatorsHold es anyCase values depth) false rfl
    fun e rest => operatorsHold_cons e.1 e.2 rest anyCase values depth

/-- A search among clauses fails at a clause, behind clauses that give the other answer. -/
theorem anyAnswers_eq_error_iff {clauses : List Json} {answer : Bool} {doc : Object} {depth : Nat}
    {cause : StoreError} :
    anyAnswers clauses answer doc depth = .error cause ↔
      ∃ c, GetsTo (fun c => filterHolds c doc depth) (!answer) clauses c ∧
        filterHolds c doc depth = .error cause := by
  refine eq_error_iff_getsTo (fun cs => anyAnswers cs answer doc depth) true rfl
    fun clause rest => ?_
  simp only [anyAnswers]
  refine congrArg (filterHolds clause doc depth >>= ·) (funext fun a => ?_)
  cases a <;> cases answer <;> rfl

/-- A search fails at an item, behind items that do not answer it. -/
theorem findAny_eq_error_iff {α : Type} {test : α → Except StoreError Bool} {xs : List α}
    {cause : StoreError} :
    findAny test xs = .error cause ↔ ∃ x, GetsTo test false xs x ∧ test x = .error cause := by
  refine eq_error_iff_getsTo (findAny test) true rfl fun x rest => ?_
  rw [findAny]
  refine congrArg (test x >>= ·) (funext fun a => ?_)
  cases a <;> rfl

/-- Whether values meet one candidate of a list. -/
def candidateMet (values : List Json) (candidate : Json) : Except StoreError Bool :=
  if (candidate.asObject?.getD []).contains "$regex" then conditionHolds candidate values 0
  else pure (equalsAny values candidate)

/-- A list of candidates fails at a candidate, behind candidates that are not met. -/
theorem candidateHolds_eq_error_iff {candidates values : List Json} {cause : StoreError} :
    candidateHolds candidates values = .error cause ↔
      ∃ c, GetsTo (candidateMet values) false candidates c ∧
        candidateMet values c = .error cause := by
  refine eq_error_iff_getsTo (fun cs => candidateHolds cs values) true rfl
    fun candidate rest => ?_
  have hstep : ∀ met : Except StoreError Bool,
      (met >>= fun holds => if holds then pure true else candidateHolds rest values) =
        met >>= fun a => if a = false then candidateHolds rest values else .ok true := by
    intro met
    refine congrArg (met >>= ·) (funext fun a => ?_)
    cases a <;> rfl
  rw [← hstep, candidateMet, candidateHolds]
  split <;> rfl

end DocumentMapper
