import DocumentMapper.Proofs.ConditionLists
import DocumentMapper.Proofs.KeywordConditions

/-!
# Filters that are answered

Evaluating a filter can fail. It does not where all of its parts are answered: the entries of a
filter, the operators of a map, the clauses of a connective. Conditions that are answered on the
values at a path stay so when they are merged, and so does the filter that is made of them, whether
they are merged or put under AND one level deeper.

## Main results

* `Answerable.conditionHolds`: a condition that is answered;
* `Merged.answerable`: conditions that are merged stay answered;
* `Draft.Collects.meets_finish`: a filter on a single path is answered, and says what its conditions
  say.
-/

namespace DocumentMapper

open Text

variable {values : List Json} {j : Json} {doc : Object} {path : String} {depth : Nat}

/-! ### Parts that are answered -/

theorem bind_and_answered {x y : Except StoreError Bool} (hx : ∃ b, x = .ok b)
    (hy : ∃ b, y = .ok b) :
    ∃ b, (x >>= fun holds => if holds then y else return false) = .ok b := by
  obtain ⟨a, rfl⟩ := hx
  obtain ⟨b, rfl⟩ := hy
  cases a
  · exact ⟨false, rfl⟩
  · exact ⟨b, rfl⟩

theorem operatorsHold_answered {es : List (String × Json)} {anyCase : Bool}
    (h : ∀ e ∈ es, ∃ b, operatorHolds e.1 e.2 anyCase values depth = .ok b) :
    ∃ b, operatorsHold es anyCase values depth = .ok b := by
  induction es with
  | nil => exact ⟨true, rfl⟩
  | cons e rest ih =>
    obtain ⟨hfirst, hrest⟩ := List.forall_mem_cons.mp h
    rw [operatorsHold_cons]
    exact bind_and_answered hfirst (ih hrest)

theorem entriesHold_answered {es : List (String × Json)}
    (h : ∀ e ∈ es, ∃ b, entryHolds e.1 e.2 doc depth = .ok b) :
    ∃ b, entriesHold es doc depth = .ok b := by
  induction es with
  | nil => exact ⟨true, rfl⟩
  | cons e rest ih =>
    obtain ⟨hfirst, hrest⟩ := List.forall_mem_cons.mp h
    rw [entriesHold_cons]
    exact bind_and_answered hfirst (ih hrest)

theorem anyAnswers_answered {clauses : List Json} (answer : Bool)
    (h : ∀ clause ∈ clauses, ∃ b, filterHolds clause doc depth = .ok b) :
    ∃ b, anyAnswers clauses answer doc depth = .ok b := by
  induction clauses with
  | nil => exact ⟨false, rfl⟩
  | cons clause rest ih =>
    obtain ⟨⟨b, hfirst⟩, hrest⟩ := List.forall_mem_cons.mp h
    obtain ⟨b', hothers⟩ := ih hrest
    by_cases hb : b = answer
    · exact ⟨true, anyAnswers_cons.mpr (.inl ⟨hb ▸ hfirst, rfl⟩)⟩
    · have hopposite : b = !answer := by cases b <;> cases answer <;> simp_all
      exact ⟨b', anyAnswers_cons.mpr (.inr ⟨hopposite ▸ hfirst, hothers⟩)⟩

theorem entryHolds_and_answered {clauses : List Json}
    (h : ∀ clause ∈ clauses, ∃ entries, clause = .object entries ∧
      ∃ b, entriesHold entries doc 1 = .ok b) :
    ∃ b, entryHolds "$and" (.array clauses) doc 0 = .ok b := by
  have hfilters : (clauses.all fun clause => clause.asObject?.isSome) = true := by
    rw [List.all_eq_true]
    intro clause hclause
    obtain ⟨entries, rfl, -⟩ := h clause hclause
    rfl
  have hanswers : ∀ clause ∈ clauses, ∃ b, filterHolds clause doc 1 = .ok b := by
    intro clause hclause
    obtain ⟨entries, rfl, b, hb⟩ := h clause hclause
    exact ⟨b, by rw [filterHolds, if_neg (by decide), hb]⟩
  obtain ⟨b, hb⟩ := anyAnswers_answered false hanswers
  refine ⟨!b, map_answer_eq_ok.mpr ⟨b, ?_, rfl⟩⟩
  rw [clauseAnswers, if_pos hfilters, hb]

/-! ### Conditions that are answered -/

/-- A condition that is answered on some values, and stays so beside other operators: data, or a map
of operators each of which is answered. -/
inductive Answerable (values : List Json) : Json → Prop where
  | data {j : Json} (h : j.asObject? = none) : Answerable values j
  | operators {operators : Object} (hkeys : (operators.map Prod.fst).Nodup)
      (hnear : asksNear operators = false)
      (h : ∀ e ∈ operators, ∀ anyCase depth, ∃ b,
        operatorHolds e.1 e.2 anyCase values depth = .ok b) :
      Answerable values (.object operators)

namespace Answerable

/-- **A condition that is answered**, at every depth. -/
theorem conditionHolds (h : Answerable values j) (depth : Nat) :
    ∃ b, conditionHolds j values depth = .ok b := by
  cases h with
  | data h => exact ⟨_, conditionHolds_of_data (Json.not_isOperators h) values depth⟩
  | @operators operators _ _ h =>
    rw [DocumentMapper.conditionHolds]
    split
    · exact operatorsHold_answered fun e he => h e he _ depth
    · exact ⟨_, rfl⟩

theorem keysOnce (h : Answerable values j) : j.KeysOnce := by
  cases h with
  | data h =>
    cases j with
    | object entries => cases h
    | _ => trivial
  | operators hkeys _ _ => exact hkeys

/-- A map of operators has answers. -/
theorem of_object {operators : Object} (h : Answerable values (.object operators)) :
    asksNear operators = false ∧ ∀ e ∈ operators, ∀ anyCase depth, ∃ b,
      operatorHolds e.1 e.2 anyCase values depth = .ok b := by
  cases h with
  | data h => cases h
  | operators _ hnear h => exact ⟨hnear, h⟩

/-- An operator by itself is answered beside others if it is answered without them. -/
theorem single {op : String} (hop : beginsWith "$" op = true) (hregex : op ≠ "$regex")
    (hnear : asksNear [(op, j)] = false)
    (h : ∀ depth, ∃ b, DocumentMapper.conditionHolds (.single op j) values depth = .ok b) :
    Answerable values (.single op j) := by
  refine .operators (List.nodup_singleton op) hnear fun e he anyCase depth => ?_
  obtain rfl := List.mem_singleton.mp he
  obtain ⟨b, hb⟩ := h depth
  rw [conditionHolds_single hop] at hb
  exact ⟨b, by rw [← hb, operatorHolds_anyCase hregex]⟩

end Answerable

/-- **Conditions that are merged stay answered.** -/
theorem Merged.answerable {js : List Json} (h : Merged js j)
    (hall : ∀ j ∈ js, Answerable values j) : Answerable values j := by
  rcases h.union fun j hj => (hall j hj).keysOnce with rfl | ⟨maps, all, rfl, rfl, hunion⟩
  · exact hall j (List.mem_singleton_self j)
  · have hmap : ∀ o ∈ maps, Answerable values (.object o) := fun o ho =>
      hall _ (List.mem_map_of_mem ho)
    have hnear : asksNear all = false := by
      rw [Bool.eq_false_iff]
      intro hasks
      obtain ⟨o, ho, hnear⟩ := hunion.near.mp hasks
      rw [(hmap o ho).of_object.1] at hnear
      cases hnear
    obtain ⟨rfl, hkeys⟩ := hunion.flat hnear
    refine .operators hkeys hnear fun e he => ?_
    obtain ⟨o, ho, heo⟩ := List.mem_flatten.mp he
    exact (hmap o ho).of_object.2 e heo

/-! ### Filters on a single path -/

/-- Conditions that are put at a path one by one. -/
def atPath (path : String) (js : List Json) : List Object :=
  js.map fun j => [(path, j)]

theorem conditionsAt_atPath (path other : String) (js : List Json) :
    conditionsAt (atPath path js) other = if path = other then js else [] := by
  induction js with
  | nil => simp [atPath, conditionsAt]
  | cons j js ih =>
    have hcons : conditionsAt (atPath path (j :: js)) other =
        (Entries.get? [(path, j)] other).toList ++ conditionsAt (atPath path js) other := by
      simp only [atPath, conditionsAt, List.map_cons, List.filterMap_cons]
      cases Entries.get? [(path, j)] other <;> rfl
    rw [hcons, ih, Entries.get?_cons]
    split <;> simp

/-- Entries of which only one is found are at most one. -/
theorem eq_toList_of_keys {α : Type} {es : Entries α} (hkeys : (es.map Prod.fst).Nodup)
    (hother : ∀ other, path ≠ other → es.get? other = none) :
    es = ((es.get? path).map fun a => (path, a)).toList := by
  have hpath : ∀ e ∈ es, e.1 = path := by
    intro e he
    by_contra hne
    have hnone := hother e.1 (Ne.symm hne)
    rw [Entries.get?_of_mem hkeys he] at hnone
    cases hnone
  match es with
  | [] => rfl
  | [(key, a)] =>
    obtain rfl := hpath _ List.mem_cons_self
    simp [Entries.get?_cons]
  | e :: e' :: rest =>
    have hsame : e.1 = e'.1 := (hpath e (by simp)).trans (hpath e' (by simp)).symm
    simp [hsame] at hkeys

namespace Draft.Collects

variable {d : Draft} {js : List Json}

/-- A draft with conditions on a single path has nothing elsewhere. -/
theorem nothing_elsewhere (h : d.Collects (atPath path js)) {other : String}
    (hne : path ≠ other) : d.query.get? other = none ∧ d.deferred.get? other = none := by
  have hother := h.at_path other
  rw [conditionsAt_atPath, if_neg hne] at hother
  generalize d.query.get? other = current at hother ⊢
  generalize d.deferred.get? other = waiting at hother ⊢
  obtain - | ⟨hmerged, hsub, -⟩ := hother
  · exact ⟨rfl, rfl⟩
  · exact absurd (List.sublist_nil.mp hsub) hmerged.ne_nil

/-- **The filter of conditions on a single path** has one of them, or all of them under AND. -/
theorem finish_eq (h : d.Collects (atPath path js)) :
    ∃ conditions : List Json, (∀ j ∈ conditions, ∃ merged ⊆ js, Merged merged j) ∧
      (d.finish = conditions.map (fun j => (path, j)) ∨
        d.finish = [("$and", .array (conditions.map (Json.single path)))]) := by
  have hquery := eq_toList_of_keys h.query fun other hne => (h.nothing_elsewhere hne).1
  have hdeferred := eq_toList_of_keys h.deferred fun other hne => (h.nothing_elsewhere hne).2
  have hthere := h.at_path path
  rw [conditionsAt_atPath, if_pos rfl] at hthere
  rw [Draft.finish, hquery, hdeferred]
  generalize d.query.get? path = current at hthere ⊢
  generalize d.deferred.get? path = waiting at hthere ⊢
  obtain - | ⟨hmerged, hsub, hperm⟩ := hthere
  · exact ⟨[], by simp, .inl rfl⟩
  · rename_i current merged
    have hcurrent : ∃ merged ⊆ js, Merged merged current := ⟨merged, hsub.subset, hmerged⟩
    cases waiting with
    | none => exact ⟨[current], by simpa using hcurrent, .inl rfl⟩
    | some waiting =>
      refine ⟨current :: waiting, List.forall_mem_cons.mpr ⟨hcurrent, fun j hj => ?_⟩, .inr ?_⟩
      · have hmem : j ∈ js := hperm.mem_iff.mpr (List.mem_append_right _ hj)
        exact ⟨[j], by simpa using hmem, .one j⟩
      · have hget : Entries.get? [(path, current)] path = some current := by
          simp [Entries.get?_cons]
        have hrest : Entries.swapErase [(path, current)] path = [] := by
          have hlength := (Entries.perm_swapErase hget).length_eq
          exact List.eq_nil_of_length_eq_zero (Nat.succ.inj hlength).symm
        simp only [Option.map_some, Option.toList_some, List.foldl_cons, List.foldl_nil,
          deferPath_eq, hget, hrest]
        rfl

/-- A filter on a single path is answered if its conditions are. -/
theorem finish_answered (h : d.Collects (atPath path js)) (hdollar : beginsWith "$" path = false)
    (hanswers : ∀ j ∈ js, Answerable (doc.lookup path) j) : ∃ b, doc.meets d.finish = .ok b := by
  obtain ⟨conditions, hmerged, hfinish⟩ := h.finish_eq
  have hconditions : ∀ j ∈ conditions, ∀ depth, ∃ b, entryHolds path j doc depth = .ok b := by
    intro j hj depth
    obtain ⟨merged, hmem, hmerged⟩ := hmerged j hj
    rw [entryHolds_of_name (not_mem_connectives hdollar), hdollar]
    exact (hmerged.answerable fun j hj => hanswers j (hmem hj)).conditionHolds depth
  rw [Object.meets_eq]
  refine entriesHold_answered fun e he => ?_
  rcases hfinish with hfinish | hfinish <;> rw [hfinish] at he
  · obtain ⟨j, hj, rfl⟩ := List.mem_map.mp he
    exact hconditions j hj 0
  · obtain rfl := List.mem_singleton.mp he
    refine entryHolds_and_answered fun clause hclause => ?_
    obtain ⟨j, hj, rfl⟩ := List.mem_map.mp hclause
    refine ⟨_, rfl, entriesHold_answered fun e he => ?_⟩
    obtain rfl := List.mem_singleton.mp he
    exact hconditions j hj 1

/-- **A filter on a single path is answered, and says what its conditions say.** -/
theorem meets_finish (h : d.Collects (atPath path js)) (hdollar : beginsWith "$" path = false)
    (hanswers : ∀ j ∈ js, Answerable (doc.lookup path) j)
    (hself : ∀ j ∈ js, j.isSelfContained = true) :
    ∃ b, doc.meets d.finish = .ok b ∧
      (b = true ↔ ∀ j ∈ js, conditionHolds j (doc.lookup path) 0 = .ok true) := by
  obtain ⟨b, hb⟩ := h.finish_answered hdollar hanswers
  refine ⟨b, hb, ?_⟩
  have hmeets : ∀ j, doc.meets [(path, j)] = conditionHolds j (doc.lookup path) 0 := fun j =>
    meets_single hdollar doc
  have hcombinable : Combinable (atPath path js) := by
    refine .of_isSelfContained (List.forall_mem_map.mpr fun j hj => ⟨List.nodup_singleton _, ?_⟩)
      (List.forall_mem_map.mpr fun j hj => ?_)
    · simpa using (hanswers j hj).keysOnce
    · simpa using hself j hj
  have hparts : ∀ part ∈ atPath path js, ∃ b', doc.meets part = .ok b' := by
    refine List.forall_mem_map.mpr fun j hj => ?_
    rw [hmeets]
    exact (hanswers j hj).conditionHolds 0
  rw [h.conjoins hcombinable doc b hb hparts, atPath, List.forall_mem_map]
  simp only [hmeets]

end Draft.Collects

end DocumentMapper
