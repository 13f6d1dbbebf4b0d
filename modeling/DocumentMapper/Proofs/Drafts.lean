import Mathlib.Data.List.Perm.Basic
import DocumentMapper.Proofs.MergedConditions

/-!
# Filters under construction

A draft collects filters one after the other: the conditions of a new path, conditions merged to
the ones that their path already has, and conditions that wait to be put under AND. Finishing the
draft moves every path with waiting conditions under AND, as clauses of one condition each.

Nothing is lost and nothing is added on the way. The one exception is a filter that comes with
something else than clauses under AND of its own, which no document can be held against.

## Main results

* `Merged.entryHolds_iff`: a merged condition on a path says what the conditions say;
* `Draft.Collects.add`, `Draft.Collects.insertAll`: what a draft has collected, step by step;
* `of_deferPath`, `deferPath_not_false`: deferring a path loses nothing and adds nothing;
* `Draft.Collects.meets_finish_iff`: the filter of a draft is met exactly when every collected
  filter is.
-/

namespace DocumentMapper

/-! ### Conditions on one path -/

/-- An object beside a path either fails whatever it is or is a condition on what stands there. -/
theorem entryHolds_object (path : String) (doc : Object) (depth : Nat) :
    (∀ o, entryHolds path (.object o) doc depth ≠ .ok true) ∨
      ∀ o, entryHolds path (.object o) doc depth =
        conditionHolds (.object o) (doc.lookup path) depth := by
  unfold entryHolds
  split
  · exact .inl fun o h => by cases h
  · exact .inl fun o h => by cases h
  · exact .inl fun o h => by cases h
  · split
    · exact .inl fun o h => by cases h
    · exact .inr fun o => rfl

theorem Merged.ne_nil {js : List Json} {j : Json} (h : Merged js j) : js ≠ [] := by
  cases h <;> simp

/-- **A merged condition says what the conditions say that were merged.** -/
theorem Merged.entryHolds_iff {js : List Json} {j : Json} (h : Merged js j)
    (hkeys : ∀ j ∈ js, j.KeysOnce) (hcompatible : js.Pairwise Json.Compatible)
    (path : String) (doc : Object) (depth : Nat) :
    entryHolds path j doc depth = .ok true ↔
      ∀ j ∈ js, entryHolds path j doc depth = .ok true := by
  rcases h.union hkeys with rfl | ⟨maps, all, rfl, rfl, hunion⟩
  · simp
  · rw [List.forall_mem_map]
    rcases entryHolds_object path doc depth with hnever | hasks
    · obtain ⟨first, hfirst⟩ := List.exists_mem_of_ne_nil _ hunion.ne_nil
      constructor
      · intro hall
        exact absurd hall (hnever all)
      · intro hall
        exact absurd (hall first hfirst) (hnever first)
    · simp only [hasks]
      exact hunion.conditionHolds_iff hcompatible _ depth

/-! ### Filters side by side -/

/-- The conditions on a path in several filters. -/
def conditionsAt (filters : List Object) (path : String) : List Json :=
  filters.filterMap fun filter => filter.get? path

theorem conditionsAt_concat (filters : List Object) (filter : Object) (path : String) :
    conditionsAt (filters ++ [filter]) path =
      conditionsAt filters path ++ (filter.get? path).toList := by
  unfold conditionsAt
  cases h : filter.get? path <;> simp [List.filterMap_append, h]

theorem mem_conditionsAt {filters : List Object} {path : String} {j : Json} :
    j ∈ conditionsAt filters path ↔ ∃ filter ∈ filters, filter.get? path = some j :=
  List.mem_filterMap

/-- Filters whose conditions can stand on one path where they meet. -/
def Object.Compatible (filter other : Object) : Prop :=
  ∀ path j j', filter.get? path = some j → other.get? path = some j' → j.Compatible j'

theorem Object.Compatible.symm {filter other : Object} (h : filter.Compatible other) :
    other.Compatible filter :=
  fun path j j' hj hj' => (h path j' j hj' hj).symm

theorem pairwise_conditionsAt {filters : List Object}
    (h : filters.Pairwise Object.Compatible) (path : String) :
    (conditionsAt filters path).Pairwise Json.Compatible := by
  refine h.filterMap _ fun filter other hcompatible j hj j' hj' => ?_
  exact hcompatible path j j' hj hj'

/-- Whether a filter has no path twice, and none of its conditions has a key twice. -/
def Object.KeysOnce (filter : Object) : Prop :=
  (filter.map Prod.fst).Nodup ∧ ∀ e ∈ filter, e.2.KeysOnce

instance : DecidablePred Object.KeysOnce := fun filter =>
  inferInstanceAs (Decidable ((filter.map Prod.fst).Nodup ∧ ∀ e ∈ filter, e.2.KeysOnce))

/-! ### What a draft has collected -/

/-- What a draft has under a path was merged from some of the conditions on the path, and the others
are waiting. -/
inductive CollectsAt : Option Json → Option (List Json) → List Json → Prop
  | nothing : CollectsAt none none []
  | some {current : Json} {waiting : Option (List Json)} {merged conditions : List Json}
      (hmerged : Merged merged current) (hsub : merged.Sublist conditions)
      (hperm : conditions.Perm (merged ++ waiting.getD [])) :
      CollectsAt (some current) waiting conditions

namespace CollectsAt

theorem first {waiting : Option (List Json)} {conditions : List Json}
    (h : CollectsAt none waiting conditions) (condition : Json) :
    CollectsAt (.some condition) waiting (conditions ++ [condition]) := by
  cases h
  exact .some (.one condition) (.refl _) (.refl _)

theorem merge {current incoming new : Json} {waiting : Option (List Json)}
    {conditions : List Json} (h : CollectsAt (.some current) waiting conditions)
    (hnew : mergeOperators? current incoming = .some new) :
    CollectsAt (.some new) waiting (conditions ++ [incoming]) := by
  obtain - | ⟨hmerged, hsub, hperm⟩ := h
  refine .some (hmerged.more hnew) (hsub.append (.refl _)) ((hperm.append_right _).trans ?_)
  rw [List.append_assoc, List.append_assoc]
  exact List.perm_append_comm.append_left _

theorem defer {current : Json} {waiting : Option (List Json)} {conditions : List Json}
    (h : CollectsAt (.some current) waiting conditions) (incoming : Json) :
    CollectsAt (.some current) (.some (waiting.getD [] ++ [incoming]))
      (conditions ++ [incoming]) := by
  obtain - | ⟨hmerged, hsub, hperm⟩ := h
  refine .some hmerged (hsub.trans (List.sublist_append_left _ _)) ?_
  rw [Option.getD_some, ← List.append_assoc]
  exact hperm.append_right _

/-- Only what was given is under a path. -/
theorem eq_none_of_nil {current : Option Json} {waiting : Option (List Json)}
    (h : CollectsAt current waiting []) : current = none := by
  obtain - | ⟨hmerged, hsub, -⟩ := h
  · rfl
  · exact absurd (List.sublist_nil.mp hsub) hmerged.ne_nil

end CollectsAt

/-- A draft has collected filters. -/
structure Draft.Collects (d : Draft) (filters : List Object) : Prop where
  query : (d.query.map Prod.fst).Nodup
  deferred : (d.deferred.map Prod.fst).Nodup
  at_path : ∀ path,
    CollectsAt (d.query.get? path) (d.deferred.get? path) (conditionsAt filters path)

namespace Draft.Collects

theorem nil : Collects ⟨[], []⟩ [] :=
  ⟨List.nodup_nil, List.nodup_nil, fun _ => .nothing⟩

/-- A draft that differs on one path only has collected what it has collected on that path. -/
theorem of_path {d d' : Draft} {filters : List Object} (h : d.Collects filters) {path : String}
    {condition : Json} (hquery : (d'.query.map Prod.fst).Nodup)
    (hdeferred : (d'.deferred.map Prod.fst).Nodup)
    (hothers : ∀ other, path ≠ other → d'.query.get? other = d.query.get? other ∧
      d'.deferred.get? other = d.deferred.get? other)
    (hpath : CollectsAt (d'.query.get? path) (d'.deferred.get? path)
      (conditionsAt filters path ++ [condition])) :
    d'.Collects (filters ++ [[(path, condition)]]) := by
  refine ⟨hquery, hdeferred, fun other => ?_⟩
  rw [conditionsAt_concat, Entries.get?_cons]
  by_cases hne : path = other
  · subst hne
    simpa using hpath
  · rw [if_neg hne, (hothers other hne).1, (hothers other hne).2]
    simpa using h.at_path other

/-- **A draft collects one more condition, merged or deferred.** -/
theorem add {d : Draft} {filters : List Object} (h : d.Collects filters) (path : String)
    (condition : Json) : (d.add path condition).Collects (filters ++ [[(path, condition)]]) := by
  have hsame := h.at_path path
  unfold Draft.add
  split
  · rename_i hnone
    rw [hnone] at hsame
    refine h.of_path (Entries.nodup_insert h.query _ _) h.deferred
      (fun other hne => ⟨Entries.get?_insert_of_ne _ _ hne, rfl⟩) ?_
    rw [Entries.get?_insert_self]
    exact hsame.first condition
  · rename_i current hcurrent
    rw [hcurrent] at hsame
    split
    · rename_i new hnew
      refine h.of_path (Entries.nodup_insert h.query _ _) h.deferred
        (fun other hne => ⟨Entries.get?_insert_of_ne _ _ hne, rfl⟩) ?_
      rw [Entries.get?_insert_self]
      exact hsame.merge hnew
    · refine h.of_path h.query (Entries.nodup_insert h.deferred _ _)
        (fun other hne => ⟨rfl, Entries.get?_insert_of_ne _ _ hne⟩) ?_
      rw [hcurrent, Entries.get?_insert_self]
      exact hsame.defer condition

/-- A draft collects a filter none of whose paths it has yet. -/
theorem insertAll {d : Draft} {filters : List Object} (h : d.Collects filters) {filter : Object}
    (hkeys : (filter.map Prod.fst).Nodup) (hnew : ∀ e ∈ filter, conditionsAt filters e.1 = []) :
    Collects { d with query := d.query.insertAll filter } (filters ++ [filter]) := by
  have hnone : ∀ e ∈ filter, d.query.get? e.1 = none := by
    intro e he
    exact (hnew e he ▸ h.at_path e.1).eq_none_of_nil
  rw [Entries.insertAll_of_disjoint hkeys hnone]
  refine ⟨?_, h.deferred, fun path => ?_⟩
  · rw [List.map_append]
    refine h.query.append hkeys fun key hkey hkey' => ?_
    obtain ⟨e, he, rfl⟩ := List.mem_map.mp hkey'
    exact Entries.get?_eq_none_iff.mp (hnone e he) hkey
  · have hpath := h.at_path path
    rw [conditionsAt_concat, Entries.get?_append]
    cases hfilter : filter.get? path with
    | none => simpa using hpath
    | some j =>
      have hmem := Entries.mem_of_get? hfilter
      rw [hnone _ hmem] at hpath ⊢
      exact hpath.first j

/-- **A document meets the conditions on a path when it meets what the draft has there and what is
waiting.** -/
theorem conditions_hold_iff {d : Draft} {filters : List Object} (h : d.Collects filters)
    (hkeys : ∀ filter ∈ filters, Object.KeysOnce filter)
    (hcompatible : filters.Pairwise Object.Compatible) (path : String) (doc : Object)
    (depth : Nat) :
    (∀ j ∈ conditionsAt filters path, entryHolds path j doc depth = .ok true) ↔
      (∀ current, d.query.get? path = some current →
        entryHolds path current doc depth = .ok true) ∧
      ∀ j ∈ (d.deferred.get? path).getD [], entryHolds path j doc depth = .ok true := by
  have hpairwise := pairwise_conditionsAt hcompatible path
  have honce : ∀ j ∈ conditionsAt filters path, j.KeysOnce := by
    intro j hj
    obtain ⟨filter, hfilter, hget⟩ := mem_conditionsAt.mp hj
    exact (hkeys filter hfilter).2 _ (Entries.mem_of_get? hget)
  have hpath := h.at_path path
  generalize d.query.get? path = current at hpath ⊢
  generalize d.deferred.get? path = waiting at hpath ⊢
  generalize conditionsAt filters path = conditions at hpath hpairwise honce ⊢
  obtain - | ⟨hmerged, hsub, hperm⟩ := hpath
  · simp
  · rename_i current merged
    have hiff := hmerged.entryHolds_iff (fun j hj => honce j (hsub.subset hj))
      (hpairwise.sublist hsub) path doc depth
    simp only [hperm.mem_iff, List.mem_append, or_imp, forall_and, Option.some.injEq,
      forall_eq', hiff]

end Draft.Collects

/-! ### Clauses under AND -/

/-- The clauses that a filter has under AND. -/
def clausesOf (query : Object) : List Json :=
  match query.get? "$and" with
  | some (.array clauses) => clauses
  | _ => []

/-- A filter with more clauses under AND. -/
def withClauses (query : Object) (clauses : List Json) : Object :=
  query.insert "$and" (.array (clausesOf query ++ clauses))

theorem deferPath_eq (query : Object) (path : String) (conditions : List Json) :
    deferPath query path conditions =
      match query.get? path with
      | some first =>
        withClauses (query.swapErase path) ((first :: conditions).map (Json.single path))
      | none => withClauses query (conditions.map (Json.single path)) := by
  have hclauses : ∀ (q : Object) (clauses : List Json),
      (match q.get? "$and" with
        | some (.array existing) => q.insert "$and" (.array (existing ++ clauses))
        | _ => q.insert "$and" (.array clauses)) = withClauses q clauses := by
    intro q clauses
    unfold withClauses clausesOf
    cases q.get? "$and" with
    | none => rfl
    | some j => cases j <;> rfl
  unfold deferPath
  cases query.get? path <;> exact hclauses _ _

section Clauses

variable {query doc : Object} {depth : Nat}

/-- A filter of one condition is answered like the condition. -/
theorem entryHolds_of_filterHolds_single {path : String} {j : Json} {b : Bool}
    (h : filterHolds (.single path j) doc (depth + 1) = .ok b) :
    entryHolds path j doc depth = .ok b :=
  entryHolds_of_filterHolds ((filterHolds_deeper (.single path j) doc (Nat.le_succ depth)).answer h)

theorem nodup_withClauses (h : (query.map Prod.fst).Nodup) (clauses : List Json) :
    ((withClauses query clauses).map Prod.fst).Nodup :=
  Entries.nodup_insert h _ _

/-- A document that meets a filter with more clauses meets the clauses, and every entry that was
kept. -/
theorem of_withClauses (hkeys : (query.map Prod.fst).Nodup) {clauses : List Json}
    (h : ∀ e ∈ withClauses query clauses, entryHolds e.1 e.2 doc depth = .ok true) :
    (∀ e ∈ query, (e.1 = "$and" → ∃ cs, e.2 = .array cs) →
      entryHolds e.1 e.2 doc depth = .ok true) ∧
      ∀ clause ∈ clauses, filterHolds clause doc (depth + 1) = .ok true := by
  have hand := h _ (Entries.mem_of_get? (Entries.get?_insert_self _ _ _))
  rw [entryHolds_and_eq_true_iff] at hand
  refine ⟨fun e he harray => ?_, fun clause hclause => hand _ (List.mem_append_right _ hclause)⟩
  by_cases heq : e.1 = "$and"
  · obtain ⟨cs, hcs⟩ := harray heq
    have hget : query.get? "$and" = some (.array cs) := by
      rw [← heq, ← hcs]
      exact Entries.get?_of_mem hkeys he
    have hclauses : clausesOf query = cs := by
      unfold clausesOf
      rw [hget]
    rw [heq, hcs, entryHolds_and_eq_true_iff]
    intro clause hclause
    exact hand clause (List.mem_append_left _ (hclauses ▸ hclause))
  · exact h e (Entries.mem_insert_of_ne he heq)

/-- A filter does not fail for more clauses that do not fail. -/
theorem withClauses_not_false {clauses : List Json}
    (h : ∀ e ∈ query, entryHolds e.1 e.2 doc depth ≠ .ok false)
    (hclauses : ∀ clause ∈ clauses, filterHolds clause doc (depth + 1) ≠ .ok false) :
    ∀ e ∈ withClauses query clauses, entryHolds e.1 e.2 doc depth ≠ .ok false := by
  intro e he hfalse
  rcases Entries.mem_insert he with he | rfl
  · exact h e he hfalse
  · rcases entryHolds_and_append_eq_false hfalse with hfalse | ⟨clause, hclause, hfalse⟩
    · unfold clausesOf at hfalse
      split at hfalse
      · rename_i cs hget
        exact h _ (Entries.mem_of_get? hget) hfalse
      · obtain ⟨clause, hclause, -⟩ := exists_of_entryHolds_and_eq_false hfalse
        cases hclause
    · exact hclauses clause hclause hfalse

theorem nodup_deferPath (h : (query.map Prod.fst).Nodup) (path : String)
    (conditions : List Json) : ((deferPath query path conditions).map Prod.fst).Nodup := by
  rw [deferPath_eq]
  split
  · exact nodup_withClauses (Entries.nodup_swapErase h path) _
  · exact nodup_withClauses h _

/-- After a deferral there are clauses under AND. -/
theorem array_of_mem_deferPath (h : (query.map Prod.fst).Nodup) {path : String}
    {conditions : List Json} {e : String × Json} (he : e ∈ deferPath query path conditions)
    (hand : e.1 = "$and") : ∃ cs, e.2 = .array cs := by
  have hget : (deferPath query path conditions).get? e.1 = some e.2 :=
    Entries.get?_of_mem (nodup_deferPath h path conditions) he
  rw [hand, deferPath_eq] at hget
  split at hget
  all_goals
    rw [withClauses, Entries.get?_insert_self, Option.some.injEq] at hget
    exact ⟨_, hget.symm⟩

/-- **Deferring a path loses nothing**, unless something else than clauses was under AND. -/
theorem of_deferPath (hkeys : (query.map Prod.fst).Nodup) {path : String}
    {conditions : List Json}
    (h : ∀ e ∈ deferPath query path conditions, entryHolds e.1 e.2 doc depth = .ok true) :
    (∀ e ∈ query, (e.1 = "$and" → ∃ cs, e.2 = .array cs) →
      entryHolds e.1 e.2 doc depth = .ok true) ∧
      ∀ j ∈ conditions, entryHolds path j doc depth = .ok true := by
  rw [deferPath_eq] at h
  split at h
  · rename_i first hfirst
    obtain ⟨hothers, hclauses⟩ := of_withClauses (Entries.nodup_swapErase hkeys path) h
    rw [List.forall_mem_map] at hclauses
    have hall := fun j hj => entryHolds_of_filterHolds_single (hclauses j hj)
    refine ⟨fun e he harray => ?_, fun j hj => hall j (List.mem_cons_of_mem _ hj)⟩
    rcases List.mem_cons.mp ((Entries.perm_swapErase hfirst).mem_iff.mp he) with rfl | he
    · exact hall first List.mem_cons_self
    · exact hothers e he harray
  · obtain ⟨hothers, hclauses⟩ := of_withClauses hkeys h
    rw [List.forall_mem_map] at hclauses
    exact ⟨hothers, fun j hj => entryHolds_of_filterHolds_single (hclauses j hj)⟩

/-- **Deferring a path adds nothing.** -/
theorem deferPath_not_false {path : String} {conditions : List Json}
    (h : ∀ e ∈ query, entryHolds e.1 e.2 doc depth ≠ .ok false)
    (hconditions : ∀ j ∈ conditions, entryHolds path j doc depth ≠ .ok false) :
    ∀ e ∈ deferPath query path conditions, entryHolds e.1 e.2 doc depth ≠ .ok false := by
  rw [deferPath_eq]
  split
  · rename_i first hfirst
    have hperm := Entries.perm_swapErase hfirst
    refine withClauses_not_false
      (fun e he => h e (hperm.mem_iff.mpr (List.mem_cons_of_mem _ he))) ?_
    rw [List.forall_mem_map]
    intro j hj hfalse
    have hentry := entryHolds_of_filterHolds_single hfalse
    rcases List.mem_cons.mp hj with rfl | hj
    · exact h _ (hperm.mem_iff.mpr List.mem_cons_self) hentry
    · exact hconditions j hj hentry
  · refine withClauses_not_false h ?_
    rw [List.forall_mem_map]
    intro j hj hfalse
    exact hconditions j hj (entryHolds_of_filterHolds_single hfalse)

theorem of_foldl_deferPath {deferred : Entries (List Json)}
    (hkeys : (query.map Prod.fst).Nodup)
    (h : ∀ e ∈ deferred.foldl (fun query w => deferPath query w.1 w.2) query,
      entryHolds e.1 e.2 doc depth = .ok true) :
    (∀ e ∈ query, (e.1 = "$and" → ∃ cs, e.2 = .array cs) →
      entryHolds e.1 e.2 doc depth = .ok true) ∧
      ∀ w ∈ deferred, ∀ j ∈ w.2, entryHolds w.1 j doc depth = .ok true := by
  induction deferred generalizing query with
  | nil => exact ⟨fun e he _ => h e he, fun w hw => absurd hw List.not_mem_nil⟩
  | cons w rest ih =>
    obtain ⟨hthen, hrest⟩ := ih (nodup_deferPath hkeys w.1 w.2) h
    obtain ⟨hquery, hfirst⟩ := of_deferPath hkeys fun e he =>
      hthen e he (array_of_mem_deferPath hkeys he)
    exact ⟨hquery, List.forall_mem_cons.mpr ⟨hfirst, hrest⟩⟩

theorem foldl_deferPath_not_false {deferred : Entries (List Json)}
    (h : ∀ e ∈ query, entryHolds e.1 e.2 doc depth ≠ .ok false)
    (hdeferred : ∀ w ∈ deferred, ∀ j ∈ w.2, entryHolds w.1 j doc depth ≠ .ok false) :
    ∀ e ∈ deferred.foldl (fun query w => deferPath query w.1 w.2) query,
      entryHolds e.1 e.2 doc depth ≠ .ok false := by
  induction deferred generalizing query with
  | nil => exact h
  | cons w rest ih =>
    obtain ⟨hfirst, hrest⟩ := List.forall_mem_cons.mp hdeferred
    exact ih (deferPath_not_false h hfirst) hrest

end Clauses

/-! ### The filter of a draft -/

/-- A filter is answered at an entry if all others hold. -/
theorem entryHolds_answered {filter : Object} (hkeys : (filter.map Prod.fst).Nodup) {doc : Object}
    {depth : Nat} {b : Bool} (h : entriesHold filter doc depth = .ok b) {e : String × Json}
    (he : e ∈ filter)
    (hothers : ∀ e' ∈ filter, e'.1 ≠ e.1 → entryHolds e'.1 e'.2 doc depth = .ok true) :
    ∃ b', entryHolds e.1 e.2 doc depth = .ok b' := by
  cases b with
  | true => exact ⟨true, entriesHold_eq_true_iff.mp h e he⟩
  | false =>
    obtain ⟨e', he', hfalse⟩ := exists_of_entriesHold_eq_false h
    by_cases heq : e'.1 = e.1
    · obtain rfl : e' = e := by
        have hget := Entries.get?_of_mem hkeys he'
        rw [heq, Entries.get?_of_mem hkeys he] at hget
        exact Prod.ext heq (Option.some.inj hget).symm
      exact ⟨false, hfalse⟩
    · rw [hothers e' he' heq] at hfalse
      cases hfalse

/-- Conditions that are all lists are not merged. -/
theorem Merged.array {js : List Json} {j : Json} (h : Merged js j)
    (harray : ∀ j ∈ js, ∃ cs, j = .array cs) : ∃ cs, j = .array cs := by
  induction h with
  | one j => exact harray j (List.mem_singleton_self j)
  | more hjs hmerge ih =>
    obtain ⟨cs, rfl⟩ := ih fun j hj => harray j (List.mem_append_left _ hj)
    cases hmerge

namespace Draft.Collects

variable {d : Draft} {filters : List Object}

section

variable (h : d.Collects filters) (hkeys : ∀ filter ∈ filters, Object.KeysOnce filter)
  (hcompatible : filters.Pairwise Object.Compatible) {doc : Object}

include h hkeys hcompatible

/-- A document that meets the filter of a draft meets every filter that the draft has collected. -/
theorem meets_of_finish (hfinish : doc.meets d.finish = .ok true)
    (hanswered : ∀ filter ∈ filters, ∃ b, doc.meets filter = .ok b) :
    ∀ filter ∈ filters, doc.meets filter = .ok true := by
  simp only [Object.meets_eq] at hfinish hanswered ⊢
  have hiff := fun path => h.conditions_hold_iff hkeys hcompatible path doc 0
  rw [entriesHold_eq_true_iff] at hfinish
  obtain ⟨hquery, hdeferred⟩ := of_foldl_deferPath h.query hfinish
  have hwaiting : ∀ path, ∀ j ∈ (d.deferred.get? path).getD [],
      entryHolds path j doc 0 = .ok true := by
    intro path j hj
    cases hget : d.deferred.get? path with
    | none => rw [hget] at hj; cases hj
    | some js => rw [hget] at hj; exact hdeferred _ (Entries.mem_of_get? hget) j hj
  have hothers : ∀ path, path ≠ "$and" → ∀ j ∈ conditionsAt filters path,
      entryHolds path j doc 0 = .ok true := by
    intro path hne
    refine (hiff path).mpr ⟨fun current hcurrent => ?_, hwaiting path⟩
    exact hquery _ (Entries.mem_of_get? hcurrent) fun heq => absurd heq hne
  have harray : ∀ j ∈ conditionsAt filters "$and", ∃ cs, j = .array cs := by
    intro j hj
    obtain ⟨filter, hfilter, hget⟩ := mem_conditionsAt.mp hj
    obtain ⟨b, hb⟩ := hanswered filter hfilter
    obtain ⟨b', hb'⟩ := entryHolds_answered (hkeys filter hfilter).1 hb
      (Entries.mem_of_get? hget) fun e he hne =>
        hothers e.1 hne e.2 (mem_conditionsAt.mpr
          ⟨filter, hfilter, Entries.get?_of_mem (hkeys filter hfilter).1 he⟩)
    exact array_of_entryHolds_and hb'
  have hand : ∀ j ∈ conditionsAt filters "$and", entryHolds "$and" j doc 0 = .ok true := by
    refine (hiff "$and").mpr ⟨fun current hcurrent => ?_, hwaiting "$and"⟩
    refine hquery _ (Entries.mem_of_get? hcurrent) fun _ => ?_
    have hpath := h.at_path "$and"
    rw [hcurrent] at hpath
    obtain - | ⟨hmerged, hsub, -⟩ := hpath
    exact hmerged.array fun j hj => harray j (hsub.subset hj)
  intro filter hfilter
  rw [entriesHold_eq_true_iff]
  intro e he
  have hmem : e.2 ∈ conditionsAt filters e.1 := mem_conditionsAt.mpr
    ⟨filter, hfilter, Entries.get?_of_mem (hkeys filter hfilter).1 he⟩
  by_cases heq : e.1 = "$and"
  · rw [heq] at hmem ⊢
    exact hand _ hmem
  · exact hothers e.1 heq _ hmem

/-- The filter of a draft does not refuse a document that meets every filter it has collected. -/
theorem finish_ne_false (hall : ∀ filter ∈ filters, doc.meets filter = .ok true) :
    doc.meets d.finish ≠ .ok false := by
  simp only [Object.meets_eq] at hall ⊢
  have hiff := fun path => h.conditions_hold_iff hkeys hcompatible path doc 0
  have hhold : ∀ path, ∀ j ∈ conditionsAt filters path, entryHolds path j doc 0 = .ok true := by
    intro path j hj
    obtain ⟨filter, hfilter, hget⟩ := mem_conditionsAt.mp hj
    exact entriesHold_eq_true_iff.mp (hall filter hfilter) _ (Entries.mem_of_get? hget)
  intro hfinish
  obtain ⟨e, he, hfalse⟩ := exists_of_entriesHold_eq_false hfinish
  refine foldl_deferPath_not_false (fun e he hfalse => ?_) (fun w hw j hj hfalse => ?_)
    e he hfalse
  · have hcurrent := ((hiff e.1).mp (hhold e.1)).1 e.2 (Entries.get?_of_mem h.query he)
    rw [hcurrent] at hfalse
    cases hfalse
  · have hget := Entries.get?_of_mem h.deferred hw
    have hwaiting := ((hiff w.1).mp (hhold w.1)).2 j (by rw [hget]; exact hj)
    rw [hwaiting] at hfalse
    cases hfalse

/-- **A document meets the filter of a draft exactly when it meets every filter that the draft has
collected**, as far as all of them are answered. -/
theorem meets_finish_iff {b : Bool} (hfinish : doc.meets d.finish = .ok b)
    (hanswered : ∀ filter ∈ filters, ∃ b, doc.meets filter = .ok b) :
    b = true ↔ ∀ filter ∈ filters, doc.meets filter = .ok true := by
  constructor
  · rintro rfl
    exact h.meets_of_finish hkeys hcompatible hfinish hanswered
  · intro hall
    cases b with
    | true => rfl
    | false => exact absurd hfinish (h.finish_ne_false hkeys hcompatible hall)

end

end Draft.Collects

end DocumentMapper
