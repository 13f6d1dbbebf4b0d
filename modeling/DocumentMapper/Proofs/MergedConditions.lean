import Mathlib.Data.List.Nodup
import Mathlib.Data.List.Pairwise
import DocumentMapper.Filter.Conditions
import DocumentMapper.Proofs.EntriesLaws
import DocumentMapper.Proofs.FilterVerdicts

/-!
# Conditions merged on one path

Conditions on the same path become one condition where they are maps of operators that share no
operator. What such a condition says is what the maps say one by one, apart from two cases: beside
an object without any operator, which is an operand to compare with and no map of operators; and
beside options that were not written for the pattern that they come to stand next to.

Where a position is asked for, the distances move into the operand of the position. Such a
condition is beyond what can be evaluated, before and after.

## Main results

* `operatorsOf_orderDistances`: ordering distances keeps every other operator and adds none;
* `Merged.union`: conditions that were merged are maps of operators brought together;
* `Union.conditionHolds_iff`: maps of operators say together what they say apart;
* `Json.compatible_of_isSelfContained`: which conditions can always stand together.
-/

namespace DocumentMapper

/-! ### Distances -/

/-- The operators that limit a distance. -/
def distanceOperators : List String :=
  ["$maxDistance", "$minDistance"]

/-- Whether operators ask for what is near a position. -/
def asksNear (operators : Object) : Bool :=
  operators.contains "$near" || operators.contains "$nearSphere"

/-- Takes a distance out of a map of operators and puts it beside. -/
def takeDistance (state : Object × Object) (key : String) : Object × Object :=
  match state.1.get? key with
  | some v => (state.1.swapErase key, state.2 ++ [(key, v)])
  | none => state

/-- Puts distances into the operand of an operator if it is an object. -/
def embedDistances (distances : Object) (state : Object × Bool) (near : String) : Object × Bool :=
  match state.1.get? near with
  | some (.object operand) =>
    (state.1.insert near (.object (Entries.insertAll operand distances)), true)
  | _ => state

theorem orderDistances_eq (operators : Object) :
    orderDistances operators =
      if !asksNear operators then operators
      else
        let (rest, distances) := distanceOperators.foldl takeDistance (operators, [])
        if distances.isEmpty then rest
        else
          let (placed, isEmbedded) :=
            ["$near", "$nearSphere"].foldl (embedDistances distances) (rest, false)
          if isEmbedded then placed else placed.insertAll distances :=
  rfl

/-- Operators are those of `m`, apart from distances that may be missing. -/
structure OperatorsOf (m o : Object) : Prop where
  within : ∀ key ∈ o.map Prod.fst, key ∈ m.map Prod.fst
  others : ∀ key ∈ m.map Prod.fst, key ∉ distanceOperators → key ∈ o.map Prod.fst

namespace OperatorsOf

theorem refl (m : Object) : OperatorsOf m m :=
  ⟨fun _ h => h, fun _ h _ => h⟩

theorem insert {m o : Object} (h : OperatorsOf m o) {key : String} (hkey : key ∈ m.map Prod.fst)
    (v : Json) : OperatorsOf m (o.insert key v) := by
  refine ⟨fun other hother => ?_, fun other hother hdistance => ?_⟩
  · rcases Entries.mem_keys_insert.mp hother with rfl | hother
    · exact hkey
    · exact h.within other hother
  · exact Entries.mem_keys_insert.mpr (.inr (h.others other hother hdistance))

theorem insertAll {m o : Object} (h : OperatorsOf m o) {more : Object}
    (hmore : ∀ e ∈ more, e.1 ∈ m.map Prod.fst) : OperatorsOf m (o.insertAll more) := by
  induction more generalizing o with
  | nil => exact h
  | cons e rest ih =>
    exact ih (h.insert (hmore e List.mem_cons_self) e.2) fun e' he' =>
      hmore e' (List.mem_cons_of_mem _ he')

theorem swapErase {m o : Object} (h : OperatorsOf m o) {key : String}
    (hkey : key ∈ distanceOperators) : OperatorsOf m (o.swapErase key) := by
  cases hget : o.get? key with
  | none => rwa [Entries.swapErase_of_get?_none hget]
  | some v =>
    have hkeys := (Entries.perm_swapErase hget).map Prod.fst
    refine ⟨fun other hother => ?_, fun other hother hdistance => ?_⟩
    · exact h.within other (hkeys.mem_iff.mpr (List.mem_cons_of_mem _ hother))
    · refine (List.mem_cons.mp (hkeys.mem_iff.mp (h.others other hother hdistance))).resolve_left ?_
      rintro rfl
      exact hdistance hkey

end OperatorsOf

/-- Taking out distances leaves the other operators, and takes what was there. -/
theorem operatorsOf_takeDistances {m : Object} (keys : List String) (state : Object × Object)
    (hkeys : ∀ key ∈ keys, key ∈ distanceOperators) (hrest : OperatorsOf m state.1)
    (htaken : ∀ e ∈ state.2, e.1 ∈ m.map Prod.fst) :
    OperatorsOf m (keys.foldl takeDistance state).1 ∧
      ∀ e ∈ (keys.foldl takeDistance state).2, e.1 ∈ m.map Prod.fst := by
  induction keys generalizing state with
  | nil => exact ⟨hrest, htaken⟩
  | cons key rest ih =>
    refine ih _ (fun key' hkey' => hkeys key' (List.mem_cons_of_mem _ hkey')) ?_ ?_
    · unfold takeDistance
      split
      · exact hrest.swapErase (hkeys key List.mem_cons_self)
      · exact hrest
    · unfold takeDistance
      split
      · rename_i v hv
        intro e he
        rcases List.mem_append.mp he with he | he
        · exact htaken e he
        · obtain rfl := List.mem_singleton.mp he
          exact hrest.within key (Entries.get?_isSome_iff.mp (by rw [hv]; rfl))
      · exact htaken

/-- Embedding distances writes only operators that are there. -/
theorem operatorsOf_embedDistances {m : Object} (distances : Object) (keys : List String)
    (state : Object × Bool) (h : OperatorsOf m state.1) :
    OperatorsOf m (keys.foldl (embedDistances distances) state).1 := by
  induction keys generalizing state with
  | nil => exact h
  | cons key rest ih =>
    refine ih _ ?_
    unfold embedDistances
    split
    · rename_i operand hoperand
      exact h.insert (h.within key (Entries.get?_isSome_iff.mp (by rw [hoperand]; rfl))) _
    · exact h

/-- **Ordering distances neither adds operators nor loses others than distances.** -/
theorem operatorsOf_orderDistances (m : Object) : OperatorsOf m (orderDistances m) := by
  obtain ⟨hrest, htaken⟩ := operatorsOf_takeDistances distanceOperators (m, [])
    (fun _ h => h) (.refl m) (fun _ h => absurd h List.not_mem_nil)
  rw [orderDistances_eq]
  split
  · exact .refl m
  · simp only
    split
    · exact hrest
    · have hplaced := operatorsOf_embedDistances
        (distanceOperators.foldl takeDistance (m, [])).2 ["$near", "$nearSphere"]
        ((distanceOperators.foldl takeDistance (m, [])).1, false) hrest
      split
      · exact hplaced
      · exact hplaced.insertAll htaken

/-- Without a position there is nothing that distances could limit. -/
theorem orderDistances_of_not_near {m : Object} (h : asksNear m = false) :
    orderDistances m = m := by
  rw [orderDistances_eq, h]
  rfl

theorem asksNear_iff {m : Object} :
    asksNear m = true ↔ "$near" ∈ m.map Prod.fst ∨ "$nearSphere" ∈ m.map Prod.fst := by
  simp only [asksNear, Bool.or_eq_true, Entries.contains, Entries.get?_isSome_iff]

theorem asksNear_append (m o : Object) : asksNear (m ++ o) = (asksNear m || asksNear o) := by
  rw [Bool.eq_iff_iff, Bool.or_eq_true, asksNear_iff, asksNear_iff, asksNear_iff]
  simp only [List.map_append, List.mem_append]
  tauto

/-- Ordering distances does not touch the position that is asked for. -/
theorem asksNear_orderDistances (m : Object) : asksNear (orderDistances m) = asksNear m := by
  have hsame := operatorsOf_orderDistances m
  rw [Bool.eq_iff_iff, asksNear_iff, asksNear_iff]
  constructor
  · exact Or.imp (hsame.within _) (hsame.within _)
  · exact Or.imp (fun h => hsame.others _ h (by decide)) (fun h => hsame.others _ h (by decide))

/-! ### Merged conditions -/

/-- Whether an object has no key twice. What is inside its values does not count. -/
def Json.KeysOnce : Json → Prop
  | .object entries => (entries.map Prod.fst).Nodup
  | _ => True

instance : DecidablePred Json.KeysOnce
  | .object entries => inferInstanceAs (Decidable (entries.map Prod.fst).Nodup)
  | .null | .bool _ | .whole _ | .float _ | .string _ | .array _ => isTrue trivial

/-- Two conditions are merged where both are operators and none is in both. -/
theorem mergeOperators?_eq_some_iff {j j' merged : Json} :
    mergeOperators? j j' = some merged ↔ ∃ a b : Object, j = .object a ∧ j' = .object b ∧
      (∀ e ∈ a, isOperatorKey e.1 = true) ∧ (∀ e ∈ b, isOperatorKey e.1 = true) ∧
      (∀ e ∈ b, a.get? e.1 = none) ∧ merged = .object (orderDistances (a.insertAll b)) := by
  cases j with
  | object a =>
    cases j' with
    | object b =>
      simp only [mergeOperators?, List.all_append, Bool.and_eq_true, List.all_eq_true,
        Entries.contains, Bool.not_eq_true', Option.isSome_eq_false_iff, Option.isNone_iff_eq_none]
      constructor
      · intro h
        split at h
        · rename_i hcond
          exact ⟨a, b, rfl, rfl, hcond.1.1, hcond.1.2, hcond.2, (Option.some.inj h).symm⟩
        · cases h
      · rintro ⟨a', b', ha, hb, hoa, hob, hdisjoint, rfl⟩
        obtain rfl := Json.object.inj ha
        obtain rfl := Json.object.inj hb
        rw [if_pos ⟨⟨hoa, hob⟩, hdisjoint⟩]
    | _ => simp [mergeOperators?]
  | _ => simp [mergeOperators?]

/-- A condition on a path that some conditions on the path were merged to, one after the other. -/
inductive Merged : List Json → Json → Prop
  | one (j : Json) : Merged [j] j
  | more {js : List Json} {current incoming merged : Json} (hjs : Merged js current)
      (h : mergeOperators? current incoming = some merged) : Merged (js ++ [incoming]) merged

/-- Maps of operators are brought together in one. Without a position the one has the operators of
all of them. -/
structure Union (maps : List Object) (all : Object) : Prop where
  ne_nil : maps ≠ []
  operators : ∀ o ∈ maps, ∀ e ∈ o, isOperatorKey e.1 = true
  operatorsAll : ∀ e ∈ all, isOperatorKey e.1 = true
  near : asksNear all = true ↔ ∃ o ∈ maps, asksNear o = true
  flat : asksNear all = false → all = maps.flatten ∧ (all.map Prod.fst).Nodup

namespace Union

theorem single {o : Object} (hoperators : ∀ e ∈ o, isOperatorKey e.1 = true)
    (hkeys : (o.map Prod.fst).Nodup) : Union [o] o where
  ne_nil := List.cons_ne_nil _ _
  operators := by simpa using hoperators
  operatorsAll := hoperators
  near := by simp
  flat := fun _ => ⟨by simp, hkeys⟩

/-- One more map that shares no operator. -/
theorem add {maps : List Object} {all o : Object} (h : Union maps all)
    (hoperators : ∀ e ∈ o, isOperatorKey e.1 = true) (hkeys : (o.map Prod.fst).Nodup)
    (hdisjoint : ∀ e ∈ o, all.get? e.1 = none) :
    Union (maps ++ [o]) (orderDistances (all.insertAll o)) := by
  rw [Entries.insertAll_of_disjoint hkeys hdisjoint]
  refine ⟨by simp, ?_, ?_, ?_, ?_⟩
  · intro o' ho'
    rcases List.mem_append.mp ho' with ho' | ho'
    · exact h.operators o' ho'
    · obtain rfl := List.mem_singleton.mp ho'
      exact hoperators
  · intro e he
    obtain ⟨e', he', heq⟩ := List.mem_map.mp
      ((operatorsOf_orderDistances (all ++ o)).within e.1 (List.mem_map_of_mem he))
    rw [← heq]
    rcases List.mem_append.mp he' with he' | he'
    · exact h.operatorsAll e' he'
    · exact hoperators e' he'
  · rw [asksNear_orderDistances, asksNear_append, Bool.or_eq_true, h.near]
    simp [or_and_right, exists_or]
  · intro hfar
    rw [asksNear_orderDistances] at hfar
    rw [orderDistances_of_not_near hfar]
    rw [asksNear_append, Bool.or_eq_false_iff] at hfar
    obtain ⟨hall, hnodup⟩ := h.flat hfar.1
    refine ⟨by rw [hall]; simp, ?_⟩
    rw [List.map_append]
    refine hnodup.append hkeys fun key hkey hkey' => ?_
    obtain ⟨e, he, rfl⟩ := List.mem_map.mp hkey'
    exact Entries.get?_eq_none_iff.mp (hdisjoint e he) hkey

end Union

/-- Conditions that were merged are one condition or maps of operators brought together. -/
theorem Merged.union {js : List Json} {j : Json} (h : Merged js j)
    (hkeys : ∀ j ∈ js, j.KeysOnce) :
    js = [j] ∨ ∃ maps all, js = maps.map Json.object ∧ j = .object all ∧ Union maps all := by
  induction h with
  | one j => exact .inl rfl
  | @more js current incoming merged hjs hmerge ih =>
    refine .inr ?_
    obtain ⟨a, b, rfl, rfl, hoa, hob, hdisjoint, rfl⟩ := mergeOperators?_eq_some_iff.mp hmerge
    have hb : (b.map Prod.fst).Nodup := hkeys (.object b) (by simp)
    rcases ih fun j hj => hkeys j (List.mem_append_left _ hj) with
      rfl | ⟨maps, all, rfl, heq, hunion⟩
    · have ha : (a.map Prod.fst).Nodup := hkeys (.object a) (by simp)
      exact ⟨[a] ++ [b], _, rfl, rfl, (Union.single hoa ha).add hob hb hdisjoint⟩
    · obtain rfl := Json.object.inj heq
      exact ⟨maps ++ [b], _, by simp, rfl, hunion.add hob hb hdisjoint⟩

/-! ### What merged conditions say -/

/-- Two maps of operators say together what they say apart: none is empty beside the other, and the
options of one are not taken for the pattern of the other. -/
structure Unspoiled (a b : Object) : Prop where
  empty : a = [] ↔ b = []
  right : ignoresCase a = true → b.contains "$regex" = false
  left : ignoresCase b = true → a.contains "$regex" = false

theorem Unspoiled.symm {a b : Object} (h : Unspoiled a b) : Unspoiled b a :=
  ⟨h.empty.symm, h.left, h.right⟩

instance : Std.Symm Unspoiled :=
  ⟨fun _ _ h => h.symm⟩

/-- Two conditions can stand on one path: if they are merged, they are unspoiled. -/
def Json.Compatible (j j' : Json) : Prop :=
  ∀ a b : Object, j = .object a → j' = .object b → (mergeOperators? j j').isSome → Unspoiled a b

/-- Whether two conditions are merged does not depend on their order. -/
theorem isSome_mergeOperators?_comm {j j' : Json} (h : (mergeOperators? j j').isSome) :
    (mergeOperators? j' j).isSome := by
  obtain ⟨merged, hmerged⟩ := Option.isSome_iff_exists.mp h
  obtain ⟨a, b, rfl, rfl, ha, hb, hdisjoint, -⟩ := mergeOperators?_eq_some_iff.mp hmerged
  refine Option.isSome_iff_exists.mpr
    ⟨_, mergeOperators?_eq_some_iff.mpr ⟨b, a, rfl, rfl, hb, ha, fun e he => ?_, rfl⟩⟩
  rw [Entries.get?_eq_none_iff]
  intro hmem
  obtain ⟨e', he', heq⟩ := List.mem_map.mp hmem
  exact Entries.get?_eq_none_iff.mp (hdisjoint e' he') (heq ▸ List.mem_map_of_mem he)

theorem Json.Compatible.symm {j j' : Json} (h : j.Compatible j') : j'.Compatible j :=
  fun a b ha hb hmerged => (h b a hb ha (isSome_mergeOperators?_comm hmerged)).symm

/-- Whether a condition says what it says whatever it is merged with: it is no object without
operators, and has no options without a pattern. -/
def Json.isSelfContained : Json → Bool
  | .object entries =>
    !entries.isEmpty && (!ignoresCase entries || Entries.contains entries "$regex")
  | _ => true

/-- The options of a self-contained map belong to its own pattern. -/
theorem Json.no_pattern_beside {a b : Object} (h : (Json.object a).isSelfContained = true)
    (hmerged : (mergeOperators? (.object a) (.object b)).isSome) (hcase : ignoresCase a = true) :
    b.contains "$regex" = false := by
  obtain ⟨merged, hsome⟩ := Option.isSome_iff_exists.mp hmerged
  obtain ⟨a', b', ha, hb, -, -, hdisjoint, -⟩ := mergeOperators?_eq_some_iff.mp hsome
  obtain rfl := Json.object.inj ha
  obtain rfl := Json.object.inj hb
  rw [isSelfContained, Bool.and_eq_true, Bool.or_eq_true, Bool.not_eq_true', hcase] at h
  have hregex : (a.get? "$regex").isSome := h.2.resolve_left Bool.noConfusion
  rw [← Bool.not_eq_true, Entries.contains, Entries.get?_isSome_iff]
  intro hmem
  obtain ⟨e, he, heq⟩ := List.mem_map.mp hmem
  rw [← heq, hdisjoint e he] at hregex
  cases hregex

theorem Json.compatible_of_isSelfContained {j j' : Json} (h : j.isSelfContained = true)
    (h' : j'.isSelfContained = true) : j.Compatible j' := by
  rintro a b rfl rfl hmerged
  have hne : ∀ {o : Object}, (Json.object o).isSelfContained = true → o ≠ [] := by
    rintro _ hself rfl
    cases hself
  exact ⟨iff_of_false (hne h) (hne h'), no_pattern_beside h hmerged,
    no_pattern_beside h' (isSome_mergeOperators?_comm hmerged)⟩

/-- Operators are a map of operators unless there are none. -/
theorem isOperatorMap_of_ne_nil {o : Object} (h : ∀ e ∈ o, isOperatorKey e.1 = true)
    (hne : o ≠ []) : isOperatorMap o = true := by
  rw [isOperatorMap, Bool.and_eq_true, List.all_eq_true]
  exact ⟨by simpa using hne, h⟩

/-- A position cannot be looked for. -/
theorem not_conditionHolds_of_asksNear {o : Object} (hoperators : ∀ e ∈ o, isOperatorKey e.1 = true)
    (h : asksNear o = true) (values : List Json) (depth : Nat) :
    conditionHolds (.object o) values depth ≠ .ok true := by
  intro htrue
  obtain ⟨key, hkey, hmem⟩ : ∃ key, (key = "$near" ∨ key = "$nearSphere") ∧
      key ∈ o.map Prod.fst := by
    rcases asksNear_iff.mp h with h | h
    · exact ⟨_, .inl rfl, h⟩
    · exact ⟨_, .inr rfl, h⟩
  obtain ⟨e, he, rfl⟩ := List.mem_map.mp hmem
  have hmap := isOperatorMap_of_ne_nil hoperators (List.ne_nil_of_mem he)
  have hholds := (conditionHolds_operators hmap values depth).mp htrue e he
  rcases hkey with hkey | hkey <;> rw [hkey] at hholds <;> cases hholds

/-- Maps that share no operator are unspoiled if they are compatible. -/
theorem pairwise_unspoiled {maps : List Object}
    (hoperators : ∀ o ∈ maps, ∀ e ∈ o, isOperatorKey e.1 = true)
    (hkeys : (maps.flatten.map Prod.fst).Nodup)
    (hcompatible : (maps.map Json.object).Pairwise Json.Compatible) :
    maps.Pairwise Unspoiled := by
  rw [List.map_flatten, List.nodup_flatten, List.pairwise_map] at hkeys
  rw [List.pairwise_map] at hcompatible
  refine (hkeys.2.and hcompatible).imp_of_mem fun {a b} ha hb hab => ?_
  refine hab.2 a b rfl rfl (Option.isSome_iff_exists.mpr ⟨_, mergeOperators?_eq_some_iff.mpr
    ⟨a, b, rfl, rfl, hoperators a ha, hoperators b hb, fun e he => ?_, rfl⟩⟩)
  rw [Entries.get?_eq_none_iff]
  exact fun hmem => hab.1 hmem (List.mem_map_of_mem he)

/-- The pattern of a map ignores case among all maps as it does in its own. -/
theorem ignoresCase_flatten {maps : List Object} (hkeys : (maps.flatten.map Prod.fst).Nodup)
    (hunspoiled : maps.Pairwise Unspoiled) {o : Object} (ho : o ∈ maps)
    (hregex : o.contains "$regex" = true) : ignoresCase maps.flatten = ignoresCase o := by
  cases hown : o.get? "$options" with
  | some v =>
    have hall : Entries.get? maps.flatten "$options" = some v :=
      Entries.get?_of_mem hkeys (List.mem_flatten.mpr ⟨o, ho, Entries.mem_of_get? hown⟩)
    simp only [ignoresCase, hall, hown]
  | none =>
    have hnot : ignoresCase o = false := by simp only [ignoresCase, hown]; rfl
    rw [hnot, Bool.eq_false_iff]
    intro hcase
    obtain ⟨v, hall⟩ : ∃ v, Entries.get? maps.flatten "$options" = some v := by
      cases hall : Entries.get? maps.flatten "$options" with
      | none =>
        simp only [ignoresCase, hall] at hcase
        cases hcase
      | some v => exact ⟨v, rfl⟩
    obtain ⟨a, ha, hmem⟩ := List.mem_flatten.mp (Entries.mem_of_get? hall)
    have howner : Entries.get? a "$options" = some v :=
      Entries.get?_of_mem (hkeys.sublist ((List.sublist_flatten_of_mem ha).map Prod.fst)) hmem
    have hsame : ignoresCase a = true := by
      simp only [ignoresCase, hall, howner] at hcase ⊢
      exact hcase
    have hne : a ≠ o := by
      rintro rfl
      rw [hown] at howner
      cases howner
    rw [(hunspoiled.forall ha ho hne).right hsame] at hregex
    cases hregex

/-- **Operators that are brought together say what they say apart.** -/
theorem Union.conditionHolds_iff {maps : List Object} {all : Object} (h : Union maps all)
    (hcompatible : (maps.map Json.object).Pairwise Json.Compatible) (values : List Json)
    (depth : Nat) :
    conditionHolds (.object all) values depth = .ok true ↔
      ∀ o ∈ maps, conditionHolds (.object o) values depth = .ok true := by
  cases hnear : asksNear all with
  | true =>
    obtain ⟨o, ho, hasks⟩ := h.near.mp hnear
    constructor
    · intro hall
      exact absurd hall (not_conditionHolds_of_asksNear h.operatorsAll hnear values depth)
    · intro hall
      exact absurd (hall o ho)
        (not_conditionHolds_of_asksNear (h.operators o ho) hasks values depth)
  | false =>
    obtain ⟨rfl, hkeys⟩ := h.flat hnear
    have hunspoiled := pairwise_unspoiled h.operators hkeys hcompatible
    by_cases hempty : ∃ o ∈ maps, o = []
    · -- All maps are empty, and what is compared with is the empty object.
      obtain ⟨o, ho, hnil⟩ := hempty
      have hnone : ∀ a ∈ maps, a = [] := by
        intro a ha
        by_cases heq : a = o
        · exact heq.trans hnil
        · exact (hunspoiled.forall ha ho heq).empty.mpr hnil
      rw [List.flatten_eq_nil_iff.mpr hnone]
      constructor
      · intro hall a ha
        rw [hnone a ha]
        exact hall
      · intro hall
        exact hnil ▸ hall o ho
    · have hne : ∀ o ∈ maps, o ≠ [] := fun o ho hnil => hempty ⟨o, ho, hnil⟩
      obtain ⟨first, hfirst⟩ := List.exists_mem_of_ne_nil _ h.ne_nil
      have hflat : maps.flatten ≠ [] := fun hnil =>
        hne first hfirst (List.flatten_eq_nil_iff.mp hnil first hfirst)
      rw [conditionHolds_operators (isOperatorMap_of_ne_nil h.operatorsAll hflat)]
      have hmap := fun o ho => isOperatorMap_of_ne_nil (h.operators o ho) (hne o ho)
      -- Only the pattern of a map asks for the options, and finds its own.
      have hsame : ∀ o ∈ maps, ∀ e ∈ o,
          operatorHolds e.1 e.2 (ignoresCase maps.flatten) values depth =
            operatorHolds e.1 e.2 (ignoresCase o) values depth := by
        intro o ho e he
        by_cases hregex : e.1 = "$regex"
        · have hcontains : o.contains "$regex" = true :=
            Entries.get?_isSome_iff.mpr (hregex ▸ List.mem_map_of_mem he)
          rw [ignoresCase_flatten hkeys hunspoiled ho hcontains]
        · exact operatorHolds_anyCase hregex _ _ _ _ _
      constructor
      · intro hall o ho
        rw [conditionHolds_operators (hmap o ho)]
        intro e he
        rw [← hsame o ho e he]
        exact hall e (List.mem_flatten.mpr ⟨o, ho, he⟩)
      · intro hall e he
        obtain ⟨o, ho, heo⟩ := List.mem_flatten.mp he
        rw [hsame o ho e heo]
        exact (conditionHolds_operators (hmap o ho) values depth).mp
          (hall o ho) e heo

end DocumentMapper
