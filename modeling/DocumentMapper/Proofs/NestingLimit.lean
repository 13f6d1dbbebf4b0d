import Mathlib.Logic.Function.Iterate
import Mathlib.Logic.Relation
import DocumentMapper.Proofs.KeywordConditions

/-!
# The limit on nested operators

Evaluating a filter comes to other filters and to conditions, one inside the other: a clause of a
connective, the condition at a path, the operand of a negation, the condition on an item of an array.
It comes to a part only if the parts in front of it have let it go on. Every operator on the way
counts one level, and a pattern in a list of candidates is evaluated as if nothing was around it.

The levels are compared with the limit where a filter is entered, and only there. A filter below too
many levels is refused, and the refusal is passed on by everything around it, since a part that fails
ends what it is a part of. A condition below as many levels is answered: negations, and operators on
items that are no filters, are nested at will.

## Main results

* `ComesTo.fails`, `Task.fails_cases`: one step of the evaluation passes failures on, and a refusal
  for too many levels is that of a filter or comes from the next step;
* `Object.meets_eq_nesting_iff`: evaluating a filter is refused for too many levels exactly when it
  comes to a filter below too many levels;
* `Object.meets_nots`: any number of negations is evaluated.
-/

namespace DocumentMapper

open Text

/-! ### Evaluation step by step -/

/-- What an evaluation is at: a filter on a document or a condition on some values, below a number
of levels. -/
inductive Task where
  | filter (entries doc : Object) (depth : Nat)
  | condition (condition : Json) (values : List Json) (depth : Nat)

/-- How the evaluation of a task comes out. -/
def Task.outcome : Task → Except StoreError Bool
  | .filter entries doc depth => filterHolds (.object entries) doc depth
  | .condition c values depth => conditionHolds c values depth

/-- The levels around a task. -/
def Task.depth : Task → Nat
  | .filter _ _ depth => depth
  | .condition _ _ depth => depth

/-- The answer of a clause that ends the evaluation of a connective. -/
def decidingAnswer? (op : String) : Option Bool :=
  if op = "$and" then some false
  else if op = "$or" ∨ op = "$nor" then some true
  else none

/-- The evaluation of a task comes to another one next. A filter is not refused for its levels, and
the parts in front let the evaluation go on. -/
inductive ComesTo : Task → Task → Prop
  /-- From a filter to a clause of a connective. -/
  | clause {entries doc clause : Object} {depth : Nat} {op : String} {clauses : List Json}
      {answer : Bool} :
      depth ≤ nestingLimit →
      GetsTo (fun e => entryHolds e.1 e.2 doc depth) true entries (op, .array clauses) →
      decidingAnswer? op = some answer → (∀ c ∈ clauses, c.asObject?.isSome = true) →
      GetsTo (fun c => filterHolds c doc (depth + 1)) (!answer) clauses (.object clause) →
      ComesTo (.filter entries doc depth) (.filter clause doc (depth + 1))
  /-- From a filter to the condition at a path. -/
  | path {entries doc : Object} {depth : Nat} {key : String} {c : Json} :
      depth ≤ nestingLimit →
      GetsTo (fun e => entryHolds e.1 e.2 doc depth) true entries (key, c) →
      beginsWith "$" key = false →
      ComesTo (.filter entries doc depth) (.condition c (doc.lookup key) depth)
  /-- From a condition to what it negates. -/
  | negated {entries : Object} {values : List Json} {depth : Nat} {c : Json} :
      isOperatorMap entries = true →
      GetsTo (fun e => operatorHolds e.1 e.2 (ignoresCase entries) values depth) true entries
        ("$not", c) →
      ComesTo (.condition (.object entries) values depth) (.condition c values (depth + 1))
  /-- From a condition on arrays to operators on an item. -/
  | item {entries inner : Object} {values : List Json} {depth : Nat} {item : Json} :
      isOperatorMap entries = true →
      GetsTo (fun e => operatorHolds e.1 e.2 (ignoresCase entries) values depth) true entries
        ("$elemMatch", .object inner) →
      GetsTo (fun i => itemHolds (.object inner) i (depth + 1)) false (itemsOf values) item →
      isOperatorMap inner = true →
      ComesTo (.condition (.object entries) values depth)
        (.condition (.object inner) [item] (depth + 1))
  /-- From a condition on arrays to a filter on an item. -/
  | element {entries inner element : Object} {values : List Json} {depth : Nat} :
      isOperatorMap entries = true →
      GetsTo (fun e => operatorHolds e.1 e.2 (ignoresCase entries) values depth) true entries
        ("$elemMatch", .object inner) →
      GetsTo (fun i => itemHolds (.object inner) i (depth + 1)) false (itemsOf values)
        (.object element) →
      isOperatorMap inner = false →
      ComesTo (.condition (.object entries) values depth) (.filter inner element (depth + 1))
  /-- From a condition with a list of candidates to a pattern among them. -/
  | listed {entries : Object} {values : List Json} {depth : Nat} {op : String}
      {candidates : List Json} {c : Json} :
      isOperatorMap entries = true →
      GetsTo (fun e => operatorHolds e.1 e.2 (ignoresCase entries) values depth) true entries
        (op, .array candidates) →
      op = "$in" ∨ op = "$nin" → GetsTo (candidateMet values) false candidates c →
      (c.asObject?.getD []).contains "$regex" = true →
      ComesTo (.condition (.object entries) values depth) (.condition c values 0)

theorem map_eq_error_iff {x : Except StoreError Bool} {f : Bool → Bool} {cause : StoreError} :
    x.map f = .error cause ↔ x = .error cause := by
  cases x <;> simp [Except.map]

/-! ### Failures are passed on -/

/-- An entry with a connective fails where a clause does. -/
theorem entryHolds_connective_eq_error_iff {op : String} {answer : Bool}
    (hop : decidingAnswer? op = some answer) {clauses : List Json}
    (hclauses : ∀ c ∈ clauses, c.asObject?.isSome = true) {doc : Object} {depth : Nat}
    {cause : StoreError} :
    entryHolds op (.array clauses) doc depth = .error cause ↔
      anyAnswers clauses answer doc (depth + 1) = .error cause := by
  have hall : (clauses.all fun clause => clause.asObject?.isSome) = true :=
    List.all_eq_true.mpr hclauses
  unfold decidingAnswer? at hop
  split at hop
  · rename_i hand
    subst hand
    cases hop
    simp only [entryHolds, map_eq_error_iff, clauseAnswers, hall, ↓reduceIte]
  · split at hop
    · rename_i hor
      cases hop
      rcases hor with rfl | rfl
      · simp only [entryHolds, clauseAnswers, hall, ↓reduceIte]
      · simp only [entryHolds, map_eq_error_iff, clauseAnswers, hall, ↓reduceIte]
    · cases hop

/-- The evaluation of an item is that of operators or of a filter. -/
theorem itemHolds_operators {inner : Object} (h : isOperatorMap inner = true) (item : Json)
    (depth : Nat) :
    itemHolds (.object inner) item depth = conditionHolds (.object inner) [item] depth := by
  simp only [itemHolds, conditionHolds, h, ↓reduceIte]

theorem itemHolds_element {inner : Object} (h : isOperatorMap inner = false) (element : Object)
    (depth : Nat) :
    itemHolds (.object inner) (.object element) depth =
      filterHolds (.object inner) element depth := by
  simp only [itemHolds, filterHolds, h, Bool.false_eq_true, ↓reduceIte]

/-- A map of operators fails where an operator does. -/
theorem conditionHolds_of_operator {entries : Object} (hmap : isOperatorMap entries = true)
    {values : List Json} {depth : Nat} {e : String × Json}
    (hgets : GetsTo (fun e => operatorHolds e.1 e.2 (ignoresCase entries) values depth) true
      entries e) {cause : StoreError}
    (h : operatorHolds e.1 e.2 (ignoresCase entries) values depth = .error cause) :
    conditionHolds (.object entries) values depth = .error cause := by
  rw [conditionHolds, if_pos hmap]
  exact operatorsHold_eq_error_iff.mpr ⟨e, hgets, h⟩

/-- **One step passes a failure on.** -/
theorem ComesTo.fails {s t : Task} (hstep : ComesTo s t) {cause : StoreError}
    (h : t.outcome = .error cause) : s.outcome = .error cause := by
  have hfilter : ∀ {entries doc : Object} {depth : Nat} {e : String × Json},
      depth ≤ nestingLimit → GetsTo (fun e => entryHolds e.1 e.2 doc depth) true entries e →
      entryHolds e.1 e.2 doc depth = .error cause →
      filterHolds (.object entries) doc depth = .error cause := by
    intro entries doc depth e hdepth hgets he
    rw [filterHolds, if_neg (by omega)]
    exact entriesHold_eq_error_iff.mpr ⟨e, hgets, he⟩
  cases hstep with
  | clause hdepth hgets hop hclauses hclause =>
    refine hfilter hdepth hgets ?_
    exact (entryHolds_connective_eq_error_iff hop hclauses).mpr
      (anyAnswers_eq_error_iff.mpr ⟨_, hclause, h⟩)
  | path hdepth hgets hkey =>
    refine hfilter hdepth hgets ?_
    rw [entryHolds_of_name (not_mem_connectives hkey), hkey, if_neg Bool.false_ne_true]
    exact h
  | negated hmap hgets =>
    refine conditionHolds_of_operator hmap hgets ?_
    exact map_eq_error_iff.mpr h
  | item hmap hgets hitem hinner =>
    refine conditionHolds_of_operator hmap hgets (findAny_eq_error_iff.mpr ⟨_, hitem, ?_⟩)
    rw [itemHolds_operators hinner]
    exact h
  | element hmap hgets hitem hinner =>
    refine conditionHolds_of_operator hmap hgets (findAny_eq_error_iff.mpr ⟨_, hitem, ?_⟩)
    rw [itemHolds_element hinner]
    exact h
  | listed hmap hgets hop hc hregex =>
    have hlist := candidateHolds_eq_error_iff.mpr ⟨_, hc,
      show candidateMet _ _ = .error cause by rw [candidateMet, if_pos hregex]; exact h⟩
    refine conditionHolds_of_operator hmap hgets ?_
    rcases hop with rfl | rfl
    · exact hlist
    · exact map_eq_error_iff.mpr hlist

/-! ### Where a refusal for too many levels comes from -/

/-- The operators that contain no other condition do not look at levels. -/
theorem plainOperator_ne_nesting (op : String) (operand : Json) (anyCase : Bool)
    (values : List Json) (n : Nat) :
    plainOperator op operand anyCase values ≠ .error (.nesting n) := by
  intro h
  unfold plainOperator at h
  split at h
  case h_8 =>
    unfold patternInAny at h
    repeat' split at h
    all_goals cases h
  case h_10 =>
    unfold hasSize at h
    split at h <;> cases h
  case h_11 =>
    unfold containsAll at h
    split at h <;> cases h
  case h_12 =>
    unfold hasRemainder at h
    repeat' split at h
    all_goals cases h
  all_goals cases h

/-- A failing condition is a map of operators, one of which fails. -/
theorem exists_of_conditionHolds_eq_error {c : Json} {values : List Json} {depth : Nat}
    {cause : StoreError} (h : conditionHolds c values depth = .error cause) :
    ∃ entries, c = .object entries ∧ isOperatorMap entries = true ∧
      ∃ e, GetsTo (fun e => operatorHolds e.1 e.2 (ignoresCase entries) values depth) true
          entries e ∧
        operatorHolds e.1 e.2 (ignoresCase entries) values depth = .error cause := by
  cases c with
  | object entries =>
    rw [conditionHolds] at h
    split at h
    · rename_i hmap
      exact ⟨entries, rfl, hmap, operatorsHold_eq_error_iff.mp h⟩
    · cases h
  | _ => cases h

/-- A connective that is refused for its levels has filters as clauses. -/
theorem exists_of_clauseAnswers_eq_nesting {op : String} {j : Json} {answer : Bool} {doc : Object}
    {depth n : Nat} (h : clauseAnswers op j answer doc depth = .error (.nesting n)) :
    ∃ clauses, j = .array clauses ∧ (∀ c ∈ clauses, c.asObject?.isSome = true) ∧
      anyAnswers clauses answer doc depth = .error (.nesting n) := by
  cases j with
  | array clauses =>
    rw [clauseAnswers] at h
    split at h
    · rename_i hall
      exact ⟨clauses, rfl, List.all_eq_true.mp hall, h⟩
    · cases h
  | _ => cases h

/-- An entry that is refused for its levels has a connective or a path. -/
theorem entryHolds_nesting_cases {key : String} {j : Json} {doc : Object} {depth n : Nat}
    (h : entryHolds key j doc depth = .error (.nesting n)) :
    (∃ clauses answer, j = .array clauses ∧ decidingAnswer? key = some answer ∧
      (∀ c ∈ clauses, c.asObject?.isSome = true) ∧
      anyAnswers clauses answer doc (depth + 1) = .error (.nesting n)) ∨
    beginsWith "$" key = false ∧ conditionHolds j (doc.lookup key) depth = .error (.nesting n) := by
  unfold entryHolds at h
  split at h
  · obtain ⟨clauses, rfl, hall, h⟩ := exists_of_clauseAnswers_eq_nesting (map_eq_error_iff.mp h)
    exact .inl ⟨clauses, false, rfl, rfl, hall, h⟩
  · obtain ⟨clauses, rfl, hall, h⟩ := exists_of_clauseAnswers_eq_nesting h
    exact .inl ⟨clauses, true, rfl, rfl, hall, h⟩
  · obtain ⟨clauses, rfl, hall, h⟩ := exists_of_clauseAnswers_eq_nesting (map_eq_error_iff.mp h)
    exact .inl ⟨clauses, true, rfl, rfl, hall, h⟩
  · split at h
    · cases h
    · rename_i hkey
      exact .inr ⟨by simpa using hkey, h⟩

/-- A list that is refused for its levels has a pattern that is. -/
theorem exists_of_isAmong_eq_nesting {op : String} {j : Json} {values : List Json} {n : Nat}
    (h : isAmong op j values = .error (.nesting n)) :
    ∃ candidates c, j = .array candidates ∧ GetsTo (candidateMet values) false candidates c ∧
      (c.asObject?.getD []).contains "$regex" = true ∧
      conditionHolds c values 0 = .error (.nesting n) := by
  cases j with
  | array candidates =>
    rw [isAmong] at h
    obtain ⟨c, hgets, hc⟩ := candidateHolds_eq_error_iff.mp h
    rw [candidateMet] at hc
    split at hc
    · rename_i hregex
      exact ⟨candidates, c, rfl, hgets, hregex, hc⟩
    · cases hc
  | _ => cases h

/-- An item is refused for its levels by operators or as a document by a filter. -/
theorem itemHolds_nesting_cases {j item : Json} {depth n : Nat}
    (h : itemHolds j item depth = .error (.nesting n)) :
    ∃ inner, j = .object inner ∧
      (isOperatorMap inner = true ∧
          conditionHolds (.object inner) [item] depth = .error (.nesting n) ∨
        isOperatorMap inner = false ∧ ∃ element, item = .object element ∧
          filterHolds (.object inner) element depth = .error (.nesting n)) := by
  cases j with
  | object inner =>
    refine ⟨inner, rfl, ?_⟩
    cases hmap : isOperatorMap inner with
    | true => exact .inl ⟨rfl, (itemHolds_operators hmap item depth).symm.trans h⟩
    | false =>
      cases item with
      | object element => exact .inr ⟨rfl, element, rfl, (itemHolds_element hmap element depth) ▸ h⟩
      | _ =>
        simp only [itemHolds, hmap, Bool.false_eq_true, ↓reduceIte] at h
        cases h
  | _ => cases h

/-- **A refusal for too many levels is that of a filter below too many levels, or comes from the next
step.** -/
theorem Task.fails_cases {s : Task} (h : s.outcome = .error (.nesting nestingLimit)) :
    (∃ entries doc depth, s = .filter entries doc depth ∧ nestingLimit < depth) ∨
      ∃ t, ComesTo s t ∧ t.outcome = .error (.nesting nestingLimit) := by
  cases s with
  | filter entries doc depth =>
    by_cases hdepth : nestingLimit < depth
    · exact .inl ⟨entries, doc, depth, rfl, hdepth⟩
    · right
      rw [outcome, filterHolds, if_neg hdepth] at h
      obtain ⟨⟨key, j⟩, hgets, he⟩ := entriesHold_eq_error_iff.mp h
      rcases entryHolds_nesting_cases he with
        ⟨clauses, answer, rfl, hop, hclauses, hanswers⟩ | ⟨hkey, hcondition⟩
      · obtain ⟨c, hclause, hc⟩ := anyAnswers_eq_error_iff.mp hanswers
        obtain ⟨clause, hobject⟩ := Option.isSome_iff_exists.mp (hclauses c hclause.mem)
        obtain rfl : c = .object clause := by
          cases c <;> simp_all [Json.asObject?]
        exact ⟨_, .clause (by omega) hgets hop hclauses hclause, hc⟩
      · exact ⟨_, .path (by omega) hgets hkey, hcondition⟩
  | condition c values depth =>
    right
    obtain ⟨entries, rfl, hmap, ⟨op, operand⟩, hgets, he⟩ := exists_of_conditionHolds_eq_error h
    simp only [operatorHolds] at he
    split at he
    · obtain ⟨candidates, c, rfl, hc, hregex, hcause⟩ := exists_of_isAmong_eq_nesting he
      exact ⟨_, .listed hmap hgets (.inl rfl) hc hregex, hcause⟩
    · obtain ⟨candidates, c, rfl, hc, hregex, hcause⟩ :=
        exists_of_isAmong_eq_nesting (map_eq_error_iff.mp he)
      exact ⟨_, .listed hmap hgets (.inr rfl) hc hregex, hcause⟩
    · exact ⟨_, .negated hmap hgets, map_eq_error_iff.mp he⟩
    · obtain ⟨item, hitem, hfails⟩ := findAny_eq_error_iff.mp he
      obtain ⟨inner, rfl, ⟨hinner, hcause⟩ | ⟨hinner, element, rfl, hcause⟩⟩ :=
        itemHolds_nesting_cases hfails
      · exact ⟨_, .item hmap hgets hitem hinner, hcause⟩
      · exact ⟨_, .element hmap hgets hitem hinner, hcause⟩
    · exact absurd he (plainOperator_ne_nesting op operand _ values nestingLimit)

/-! ### The whole evaluation -/

/-- How much is left to evaluate. -/
noncomputable def Task.size : Task → Nat
  | .filter entries _ _ => sizeOf entries
  | .condition c _ _ => sizeOf c

theorem size_lt_of_mem {entries : List (String × Json)} {key : String} {j : Json}
    (h : (key, j) ∈ entries) : sizeOf j < sizeOf entries := by
  have hlt := List.sizeOf_lt_of_mem h
  rw [Prod.mk.sizeOf_spec] at hlt
  omega

/-- The next task is smaller. -/
theorem ComesTo.size_lt {s t : Task} (h : ComesTo s t) : t.size < s.size := by
  cases h with
  | clause _ hgets _ _ hclause =>
    have hentry := size_lt_of_mem hgets.mem
    have hmem := List.sizeOf_lt_of_mem hclause.mem
    simp only [Task.size, Json.array.sizeOf_spec, Json.object.sizeOf_spec] at *
    omega
  | path _ hgets _ => exact size_lt_of_mem hgets.mem
  | negated _ hgets =>
    have hentry := size_lt_of_mem hgets.mem
    simp only [Task.size, Json.object.sizeOf_spec]
    omega
  | item _ hgets _ _ =>
    have hentry := size_lt_of_mem hgets.mem
    simp only [Task.size, Json.object.sizeOf_spec] at *
    omega
  | element _ hgets _ _ =>
    have hentry := size_lt_of_mem hgets.mem
    simp only [Task.size, Json.object.sizeOf_spec] at *
    omega
  | listed _ hgets _ hc _ =>
    have hentry := size_lt_of_mem hgets.mem
    have hmem := List.sizeOf_lt_of_mem hc.mem
    simp only [Task.size, Json.array.sizeOf_spec, Json.object.sizeOf_spec] at *
    omega

/-- Evaluation comes from one task to another in some steps. -/
def LeadsTo : Task → Task → Prop :=
  Relation.ReflTransGen ComesTo

/-- What is reached passes its failure on. -/
theorem LeadsTo.fails {s t : Task} (h : LeadsTo s t) {cause : StoreError}
    (ht : t.outcome = .error cause) : s.outcome = .error cause := by
  induction h using Relation.ReflTransGen.head_induction_on with
  | refl => exact ht
  | head hstep _ ih => exact hstep.fails ih

/-- A refusal for too many levels is that of a filter that was reached. -/
theorem Task.exists_reached {s : Task} (h : s.outcome = .error (.nesting nestingLimit)) :
    ∃ entries doc depth, nestingLimit < depth ∧ LeadsTo s (.filter entries doc depth) := by
  induction hsize : s.size using Nat.strongRecOn generalizing s with
  | ind n ih =>
    subst hsize
    rcases fails_cases h with ⟨entries, doc, depth, rfl, hdepth⟩ | ⟨t, hstep, ht⟩
    · exact ⟨entries, doc, depth, hdepth, .refl⟩
    · obtain ⟨entries, doc, depth, hdepth, hreach⟩ := ih t.size hstep.size_lt ht rfl
      exact ⟨entries, doc, depth, hdepth, .head hstep hreach⟩

/-- **Evaluating a filter is refused for too many levels exactly when it comes to a filter below too
many levels.** -/
theorem Object.meets_eq_nesting_iff (doc filter : Object) :
    doc.meets filter = .error (.nesting nestingLimit) ↔
      ∃ entries element depth, nestingLimit < depth ∧
        LeadsTo (.filter filter doc 0) (.filter entries element depth) := by
  constructor
  · exact fun h => Task.exists_reached (s := .filter filter doc 0) h
  · rintro ⟨entries, element, depth, hdepth, hreach⟩
    exact hreach.fails (if_pos hdepth)

/-! ### Conditions below many levels -/

/-- A condition below some negations. -/
def nots : Nat → Json → Json
  | 0, c => c
  | n + 1, c => .single "$not" (nots n c)

/-- Negations are evaluated one inside the other, below any number of levels. -/
theorem conditionHolds_nots (n : Nat) (c : Json) (values : List Json) (depth : Nat) :
    conditionHolds (nots n c) values depth =
      (conditionHolds c values (depth + n)).map (not^[n]) := by
  induction n generalizing depth with
  | zero =>
    rw [nots, Nat.add_zero]
    cases conditionHolds c values depth <;> rfl
  | succ n ih =>
    rw [nots, conditionHolds_single (by decide)]
    show (conditionHolds (nots n c) values (depth + 1)).map not = _
    rw [ih, show depth + 1 + n = depth + (n + 1) by omega]
    cases conditionHolds c values (depth + (n + 1)) with
    | error cause => rfl
    | ok b => exact congrArg Except.ok (Function.iterate_succ_apply' not n b).symm

/-- The evaluation of negations comes to what they negate, one level deeper for each. -/
theorem leadsTo_nots (n : Nat) (c : Json) (values : List Json) (depth : Nat) :
    LeadsTo (.condition (nots n c) values depth) (.condition c values (depth + n)) := by
  induction n generalizing depth with
  | zero => exact .refl
  | succ n ih =>
    have hstep : ComesTo (.condition (nots (n + 1) c) values depth)
        (.condition (nots n c) values (depth + 1)) :=
      .negated (by simp [isOperatorMap, show beginsWith "$" "$not" = true by decide])
        ⟨[], [], rfl, by simp⟩
    have hrest := ih (depth + 1)
    rw [show depth + 1 + n = depth + (n + 1) by omega] at hrest
    exact .head hstep hrest

/-- **Any number of negations is evaluated**, whatever the limit. -/
theorem Object.meets_nots {key : String} (hkey : beginsWith "$" key = false) (doc : Object)
    (n : Nat) (j : Json) :
    doc.meets [(key, nots n (.single "$eq" j))] =
      .ok (not^[n] (equalsAny (doc.lookup key) j)) := by
  rw [meets_single hkey, conditionHolds_nots, conditionHolds_single (by decide)]
  rfl

/-- More levels than the limit are not always refused. -/
theorem deep_condition_answered :
    ¬ ∀ (doc filter : Object) (t : Task), LeadsTo (.filter filter doc 0) t →
      nestingLimit < t.depth → doc.meets filter = .error (.nesting nestingLimit) := by
  intro h
  let doc : Object := [("a", .ofInt64 1)]
  let condition : Json := .single "$eq" (.ofInt64 1)
  have hpath : ComesTo (.filter [("a", nots 33 condition)] doc 0)
      (.condition (nots 33 condition) (doc.lookup "a") 0) :=
    .path (Nat.zero_le _) ⟨[], [], rfl, by simp⟩ (by decide)
  have hrefused := h doc _ _ (.head hpath (leadsTo_nots 33 condition _ 0)) (by decide)
  rw [Object.meets_nots (by decide)] at hrefused
  cases hrefused

end DocumentMapper
