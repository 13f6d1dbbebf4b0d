import DocumentMapper.Proofs.ListedValues

/-!
# Conditions on groups of values

A condition is evaluated on all values at a path together, wherever they come from. They often come
in groups, such as the values below each item of an array. A condition that asks one thing has an
answer that one of the groups gives by itself. A condition that asks several things at once has no
such group, since one value can meet the one and another value the other.

An array at the end of a path is tested through its items. Without arrays among them, a test of the
array comes out as the test of all items does, unless it is about the array itself.

## Main results

* `SingleTest.separable`: a condition that asks one thing is answered by one of two groups;
* `Separable.exists_first`: there is a first group that answers like all of them together;
* `ItemTest.conditionHolds_array`: a test of an array through its items.
-/

namespace DocumentMapper

open Text

variable {test : List Json → Except StoreError Bool} {j c : Json} {items listed : List Json}

/-! ### Answers on two groups -/

/-- An answer on two groups of values is the one on the first group, where there has to be one, or
the one on the second group. -/
def Separable (test : List Json → Except StoreError Bool) : Prop :=
  ∀ g h b, test (g ++ h) = .ok b → ∃ x, test g = .ok x ∧ (x = b ∨ test h = .ok b)

namespace Separable

theorem failure (cause : StoreError) : Separable fun _ => .error cause := by
  intro g h b hb
  cases hb

/-- A test that takes two groups for the same as asking for one of them. -/
theorem of_or {f : List Json → Bool}
    (hf : ∀ g h, g ≠ [] → h ≠ [] → f (g ++ h) = (f g || f h)) :
    Separable fun values => .ok (f values) := by
  intro g h b hb
  have hboth : f (g ++ h) = b := Except.ok.inj hb
  refine ⟨f g, rfl, ?_⟩
  by_cases hg : g = []
  · subst hg
    exact .inr hb
  · by_cases hh : h = []
    · rw [hh, List.append_nil] at hboth
      exact .inl hboth
    · rw [hf g h hg hh] at hboth
      subst hboth
      cases f g
      · exact .inr rfl
      · exact .inl rfl

theorem any (p : Json → Bool) : Separable fun values => .ok (values.any p) :=
  of_or fun _ _ _ _ => List.any_append

/-- The opposite test is answered by one of two groups, too. -/
theorem not (htest : Separable test) : Separable fun values => (test values).map (!·) := by
  intro g h b hb
  obtain ⟨a, ha, rfl⟩ := map_answer_eq_ok.mp hb
  obtain ⟨x, hx, hanswer⟩ := htest g h a ha
  refine ⟨!x, map_answer_eq_ok.mpr ⟨x, hx, rfl⟩, ?_⟩
  rcases hanswer with rfl | hh
  · exact .inl rfl
  · exact .inr (map_answer_eq_ok.mpr ⟨a, hh, rfl⟩)

/-- **Among several groups there is a first one that answers like all of them together.** -/
theorem exists_first {α : Type} (htest : Separable test) (values : α → List Json) {b : Bool}
    {groups : List α} (hne : groups ≠ []) (h : test (groups.flatMap values) = .ok b) :
    ∃ front group back, groups = front ++ group :: back ∧ test (values group) = .ok b ∧
      ∀ other ∈ front, test (values other) = .ok !b := by
  induction groups with
  | nil => exact absurd rfl hne
  | cons group rest ih =>
    rw [List.flatMap_cons] at h
    by_cases hrest : rest = []
    · subst hrest
      rw [List.flatMap_nil, List.append_nil] at h
      exact ⟨[], group, [], rfl, h, by simp⟩
    · obtain ⟨x, hx, hanswer⟩ := htest _ _ _ h
      by_cases hsame : x = b
      · subst hsame
        exact ⟨[], group, rest, rfl, hx, by simp⟩
      · obtain ⟨front, other, back, rfl, hother, hfront⟩ :=
          ih hrest (hanswer.resolve_left hsame)
        have hopposite : x = !b := by cases x <;> cases b <;> simp_all
        subst hopposite
        exact ⟨group :: front, other, back, rfl, hother, List.forall_mem_cons.mpr ⟨hx, hfront⟩⟩

end Separable

/-! ### Single operators -/

theorem equalsAny_append {g h : List Json} (hg : g ≠ []) (hh : h ≠ []) (c : Json) :
    equalsAny (g ++ h) c = (equalsAny g c || equalsAny h c) := by
  simp [equalsAny, hg, hh]

theorem separable_equalsAny (c : Json) : Separable fun values => .ok (equalsAny values c) :=
  .of_or fun _ _ hg hh => equalsAny_append hg hh c

theorem separable_exists (operand : Json) :
    Separable fun values => .ok (values.isEmpty != operand.isTruthy) := by
  refine .of_or fun g h hg hh => ?_
  rw [List.isEmpty_eq_false_iff.mpr hg, List.isEmpty_eq_false_iff.mpr hh,
    List.isEmpty_eq_false_iff.mpr (List.append_ne_nil_of_left_ne_nil hg h), Bool.or_self]

/-- A search among the items of all arrays ends in the first group or in the second one. -/
theorem separable_findAny (holds : Json → Except StoreError Bool) :
    Separable fun values => findAny holds (itemsOf values) := by
  intro g h b hb
  have hitems : itemsOf (g ++ h) = itemsOf g ++ itemsOf h := List.flatMap_append
  simp only [hitems] at hb ⊢
  generalize itemsOf g = front at hb ⊢
  induction front with
  | nil => exact ⟨false, rfl, .inr hb⟩
  | cons item rest ih =>
    simp only [List.cons_append, findAny] at hb ⊢
    cases hitem : holds item with
    | error cause =>
      rw [hitem] at hb
      cases hb
    | ok a =>
      rw [hitem] at hb
      cases a
      · exact ih hb
      · cases hb
        exact ⟨true, rfl, .inl rfl⟩

theorem separable_patternInAny (anyCase : Bool) (pattern : Json) :
    Separable fun values => patternInAny anyCase values pattern := by
  cases pattern with
  | string text =>
    simp only [patternInAny]
    cases Pattern.read? anyCase text with
    | none => exact .failure _
    | some node => exact .any _
  | _ => exact .failure _

theorem separable_hasSize (size : Json) : Separable fun values => hasSize values size := by
  unfold hasSize
  cases size.asNat? with
  | none => exact .failure _
  | some n => exact .any _

theorem separable_containsAll (wanted : Json) :
    Separable fun values => containsAll values wanted := by
  cases wanted with
  | array items => exact .any _
  | _ => exact .failure _

theorem separable_hasRemainder (operand : Json) :
    Separable fun values => hasRemainder values operand := by
  unfold hasRemainder
  split
  · split
    · split
      · exact .failure _
      · exact .any _
    · exact .failure _
  · exact .failure _

/-- An operator without conditions inside is answered by one of two groups. -/
theorem separable_plainOperator (op : String) (operand : Json) (anyCase : Bool) :
    Separable (plainOperator op operand anyCase) := by
  intro g h b hb
  unfold plainOperator at hb
  split at hb
  case h_1 => exact separable_equalsAny operand g h b hb
  case h_2 => exact (separable_equalsAny operand).not g h b hb
  case h_3 => exact Separable.any _ g h b hb
  case h_4 => exact Separable.any _ g h b hb
  case h_5 => exact Separable.any _ g h b hb
  case h_6 => exact Separable.any _ g h b hb
  case h_7 =>
    exact separable_exists operand g h b hb
  case h_8 => exact separable_patternInAny anyCase operand g h b hb
  case h_9 => exact ⟨true, rfl, .inl (Except.ok.inj hb)⟩
  case h_10 => exact separable_hasSize operand g h b hb
  case h_11 => exact separable_containsAll operand g h b hb
  case h_12 => exact separable_hasRemainder operand g h b hb
  case h_13 => exact Separable.any _ g h b hb
  case h_14 => cases hb

theorem separable_candidateHolds (hplain : ∀ c ∈ listed, ¬ c.IsPattern) :
    Separable (candidateHolds listed) := by
  have hanswer : candidateHolds listed = fun values => .ok (listed.any (equalsAny values)) :=
    funext (candidateHolds_plain hplain)
  rw [hanswer]
  refine .of_or fun g h hg hh => ?_
  rw [Bool.eq_iff_iff]
  simp only [Bool.or_eq_true, List.any_eq_true, equalsAny_append hg hh, and_or_left, exists_or]

/-! ### Conditions that ask one thing -/

/-- A condition that asks one thing: equality with a value, one operator, a pattern with its
options, or the opposite of such a condition. -/
inductive SingleTest : Json → Prop where
  | value {j : Json} (h : ¬ j.IsOperators) : SingleTest j
  | operator {op : String} (operand : Json) (hop : beginsWith "$" op = true)
      (hplain : op ∉ ["$in", "$nin", "$not"]) : SingleTest (.single op operand)
  | among {op : String} {listed : List Json} (hop : op = "$in" ∨ op = "$nin")
      (hplain : ∀ c ∈ listed, ¬ c.IsPattern) : SingleTest (.single op (.array listed))
  | pattern (p options : Json) : SingleTest (.object [("$regex", p), ("$options", options)])
  | negation {j : Json} (h : SingleTest j) : SingleTest (.single "$not" j)

/-- A pattern with its options is one test. -/
theorem conditionHolds_pattern (p options : Json) (values : List Json) (depth : Nat) :
    conditionHolds (.object [("$regex", p), ("$options", options)]) values depth =
      patternInAny (ignoresCase [("$regex", p), ("$options", options)]) values p := by
  have hregex : beginsWith "$" "$regex" = true := by decide
  have hoptions : beginsWith "$" "$options" = true := by decide
  have hoperators : isOperatorMap [("$regex", p), ("$options", options)] = true := by
    simp [isOperatorMap, hregex, hoptions]
  have hsearch (anyCase : Bool) : operatorHolds "$regex" p anyCase values depth =
      patternInAny anyCase values p := rfl
  rw [conditionHolds, if_pos hoperators, operatorsHold_cons, hsearch]
  cases patternInAny _ values p with
  | error cause => rfl
  | ok found => cases found <;> rfl

/-- **A condition that asks one thing is answered by one of two groups.** -/
theorem SingleTest.separable (h : SingleTest j) (depth : Nat) :
    Separable fun values => conditionHolds j values depth := by
  induction h generalizing depth with
  | value h =>
    simp only [conditionHolds_of_data h]
    exact separable_equalsAny _
  | @operator op operand hop hplain =>
    simp only [conditionHolds_single hop]
    unfold operatorHolds
    split
    · exact absurd (by decide) hplain
    · exact absurd (by decide) hplain
    · exact absurd (by decide) hplain
    · exact separable_findAny _
    · exact separable_plainOperator _ operand _
  | among hop hplain =>
    have hin : beginsWith "$" "$in" = true := by decide
    have hnin : beginsWith "$" "$nin" = true := by decide
    rcases hop with rfl | rfl
    · simp only [conditionHolds_single hin]
      exact separable_candidateHolds hplain
    · simp only [conditionHolds_single hnin]
      exact (separable_candidateHolds hplain).not
  | pattern p options =>
    simp only [conditionHolds_pattern]
    exact separable_patternInAny _ p
  | @negation j _ ih =>
    have hnot : beginsWith "$" "$not" = true := by decide
    simp only [conditionHolds_single hnot]
    exact (ih (depth + 1)).not

/-! ### Tests of an array through its items -/

/-- A condition that asks one thing and that an array meets through its items. -/
inductive ItemTest : Json → Prop where
  | value {j : Json} (h : ¬ j.IsOperators) (hno : j.asArray? = none)
      (hkey : Entries.get? (j.asObject?.getD []) "$elemMatch" = none) : ItemTest j
  | equality {op : String} {operand : Json} (hop : op = "$eq" ∨ op = "$ne")
      (hno : operand.asArray? = none) : ItemTest (.single op operand)
  | order {op : String} (operand : Json) (hop : op ∈ ["$gt", "$gte", "$lt", "$lte"]) :
      ItemTest (.single op operand)
  | presence (operand : Json) : ItemTest (.single "$exists" operand)
  | search (p : Json) : ItemTest (.single "$regex" p)
  | pattern (p options : Json) : ItemTest (.object [("$regex", p), ("$options", options)])
  | among {op : String} {listed : List Json} (hop : op = "$in" ∨ op = "$nin")
      (hplain : ∀ c ∈ listed, ¬ c.IsPattern) (hno : ∀ c ∈ listed, c.asArray? = none) :
      ItemTest (.single op (.array listed))
  | negation {j : Json} (h : ItemTest j) : ItemTest (.single "$not" j)

theorem ItemTest.singleTest (h : ItemTest j) : SingleTest j := by
  induction h with
  | value h _ _ => exact .value h
  | equality hop _ => rcases hop with rfl | rfl <;> exact .operator _ (by decide) (by decide)
  | order operand hop =>
    simp only [List.mem_cons, List.not_mem_nil, or_false] at hop
    obtain rfl | rfl | rfl | rfl := hop <;> exact .operator _ (by decide) (by decide)
  | presence operand => exact .operator _ (by decide) (by decide)
  | search p => exact .operator _ (by decide) (by decide)
  | pattern p options => exact .pattern p options
  | among hop hplain _ => exact .among hop hplain
  | negation _ ih => exact .negation ih

theorem ItemTest.get?_elemMatch (h : ItemTest j) :
    Entries.get? (j.asObject?.getD []) "$elemMatch" = none := by
  cases h with
  | value _ _ hkey => exact hkey
  | equality hop _ => rcases hop with rfl | rfl <;> rfl
  | order operand hop =>
    simp only [List.mem_cons, List.not_mem_nil, or_false] at hop
    obtain rfl | rfl | rfl | rfl := hop <;> rfl
  | among hop _ _ => rcases hop with rfl | rfl <;> rfl
  | _ => rfl

section Items

variable (hne : items ≠ []) (hflat : ∀ item ∈ items, item.asArray? = none)

include hflat in
/-- A test of an array through its items. -/
theorem any_anyOf_array (p : Json → Bool) :
    [Json.array items].any (Json.anyOf p) = items.any (Json.anyOf p) := by
  rw [List.any_cons, List.any_nil, Bool.or_false, Json.anyOf, Bool.eq_iff_iff]
  simp only [List.any_eq_true]
  refine exists_congr fun item => and_congr_right fun hitem => ?_
  have hno := hflat item hitem
  cases item with
  | array inner => cases hno
  | _ => rfl

include hne hflat in
/-- An array has a value that is no array among its items where the items have it. -/
theorem equalsAny_array (hno : c.asArray? = none) :
    equalsAny [.array items] c = equalsAny items c := by
  have hself : (Json.array items).sameValue c = false := by
    cases c with
    | array others => cases hno
    | _ => rfl
  have hitems : items.any (fun item => item.sameValue c ||
      (item.asArray?.getD []).any fun inner => inner.sameValue c) =
        items.any fun item => item.sameValue c := by
    rw [Bool.eq_iff_iff]
    simp only [List.any_eq_true]
    refine exists_congr fun item => and_congr_right fun hitem => ?_
    rw [hflat item hitem, Option.getD_none, List.any_nil, Bool.or_false]
  have hempty : items.isEmpty = false := List.isEmpty_eq_false_iff.mpr hne
  rw [equalsAny, equalsAny, hempty, if_neg Bool.false_ne_true, hitems]
  simp [hself, Json.asArray?]

include hflat in
theorem patternInAny_array (anyCase : Bool) (p : Json) :
    patternInAny anyCase [.array items] p = patternInAny anyCase items p := by
  cases p with
  | string text =>
    simp only [patternInAny]
    cases Pattern.read? anyCase text with
    | none => rfl
    | some node => exact congrArg Except.ok (any_anyOf_array hflat _)
  | _ => rfl

include hne hflat in
theorem candidateHolds_array (hplain : ∀ c ∈ listed, ¬ c.IsPattern)
    (hno : ∀ c ∈ listed, c.asArray? = none) :
    candidateHolds listed [.array items] = candidateHolds listed items := by
  rw [candidateHolds_plain hplain, candidateHolds_plain hplain, Except.ok.injEq, Bool.eq_iff_iff]
  simp only [List.any_eq_true]
  refine exists_congr fun c => and_congr_right fun hc => ?_
  rw [equalsAny_array hne hflat (hno c hc)]

include hne hflat in
/-- **A test of an array through its items comes out as the test of all items.** -/
theorem ItemTest.conditionHolds_array (h : ItemTest j) (depth : Nat) :
    conditionHolds j [.array items] depth = conditionHolds j items depth := by
  have hempty : items.isEmpty = false := List.isEmpty_eq_false_iff.mpr hne
  induction h generalizing depth with
  | value h hno _ =>
    rw [conditionHolds_of_data h, conditionHolds_of_data h, equalsAny_array hne hflat hno]
  | equality hop hno =>
    have hequal := equalsAny_array hne hflat hno
    rcases hop with rfl | rfl
    · rw [conditionHolds_single (by decide), conditionHolds_single (by decide)]
      exact congrArg Except.ok hequal
    · rw [conditionHolds_ne, conditionHolds_ne, hequal]
  | order operand hop =>
    have hany := fun accept : Ordering → Bool =>
      any_anyOf_array hflat fun v => (v.compare? operand).any accept
    simp only [List.mem_cons, List.not_mem_nil, or_false] at hop
    obtain rfl | rfl | rfl | rfl := hop <;>
      rw [conditionHolds_single (by decide), conditionHolds_single (by decide)] <;>
      exact congrArg Except.ok (hany _)
  | presence operand =>
    rw [conditionHolds_single (by decide), conditionHolds_single (by decide)]
    exact congrArg (fun isEmpty => Except.ok (isEmpty != operand.isTruthy)) hempty.symm
  | search p =>
    rw [conditionHolds_single (by decide), conditionHolds_single (by decide)]
    exact patternInAny_array hflat _ p
  | pattern p options =>
    rw [conditionHolds_pattern, conditionHolds_pattern, patternInAny_array hflat]
  | among hop hplain hno =>
    have hamong := candidateHolds_array hne hflat hplain hno
    rcases hop with rfl | rfl
    · rw [conditionHolds_single (by decide), conditionHolds_single (by decide)]
      exact hamong
    · rw [conditionHolds_single (by decide), conditionHolds_single (by decide)]
      exact congrArg (Except.map (!·)) hamong
  | negation _ ih =>
    rw [conditionHolds_single (by decide), conditionHolds_single (by decide)]
    exact congrArg (Except.map (!·)) (ih (depth + 1))

end Items

end DocumentMapper
