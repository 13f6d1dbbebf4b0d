import DocumentMapper.Filter.Matching
import DocumentMapper.Proofs.Content

/-!
# When filters take two values for the same

A filter that asks for a value takes numbers by their value, whatever their form: two signed words
have to be the same, and any other two numbers need the same nearest binary64 value. Values that are
not both numbers have to be equal. It finds the value, or an array with the value among its items,
and null also where there is nothing.

## Main results

* `Json.sameValue_iff`: the test of filters is equality up to the form of numbers;
* `equalsAny_iff`: what a filter that asks for a value finds.
-/

namespace DocumentMapper

open Number

/-- Numbers of the same value, as far as filters can tell: the same signed word, or, unless both are
signed words, numbers with the same nearest binary64 value. -/
inductive SameNumber (a b : Json) : Prop where
  | word (n : Int64) (ha : a.asInt64? = some n) (hb : b.asInt64? = some n)
  | nearest (x y : Double) (hno : a.asInt64? = none ∨ b.asInt64? = none)
      (ha : a.asDouble? = some x) (hb : b.asDouble? = some y) (h : x.equal y = true)

/-- Values that are the same up to the form of numbers. -/
def Same (a b : Json) : Prop :=
  a.equal b = true ∨ SameNumber a b

/-- What a filter that asks for `j` finds among the values at a path: `j`, an array with `j` among
its items, or nothing where `j` is null. -/
inductive Finds (j : Json) : List Json → Prop where
  | value {values : List Json} {stored : Json} (hmem : stored ∈ values) (h : Same stored j) :
      Finds j values
  | item {values items : List Json} {item : Json} (hmem : .array items ∈ values)
      (hitem : item ∈ items) (h : Same item j) : Finds j values
  | nothing (h : j = .null) : Finds j []

/-! ### Numbers -/

/-- A rounded result is equal to itself, since it is defined. -/
theorem Number.Double.equal_self_ofRounded (negative : Bool) (x : Option Binary64) :
    (Double.ofRounded negative x).equal (Double.ofRounded negative x) = true := by
  cases x with
  | none => cases negative <;> rfl
  | some x => exact Double.equal_finite.mpr rfl

namespace Json

theorem asDouble?_isSome (a : Json) : a.asDouble?.isSome = a.isNumber := by
  cases a <;> rfl

theorem isNumber_of_asInt64? {a : Json} {n : Int64} (h : a.asInt64? = some n) :
    a.isNumber = true := by
  cases a with
  | whole w => rfl
  | _ => cases h

end Json

/-- Only numbers are compared as numbers. -/
theorem SameNumber.isNumber {a b : Json} (h : SameNumber a b) :
    a.isNumber = true ∧ b.isNumber = true := by
  cases h with
  | word n ha hb => exact ⟨Json.isNumber_of_asInt64? ha, Json.isNumber_of_asInt64? hb⟩
  | nearest x y hno ha hb h => simp [← Json.asDouble?_isSome, ha, hb]

/-- Numbers in the same form are compared by their value. -/
theorem SameNumber.of_equal {a b : Json} (ha : a.isNumber = true) (h : a.equal b = true) :
    SameNumber a b := by
  cases a with
  | whole n =>
    cases b with
    | whole m =>
      obtain rfl : n = m := by simpa [Json.equal] using h
      cases hword : n.toInt64? with
      | some w => exact .word w hword hword
      | none => exact .nearest _ _ (.inl hword) rfl rfl (Double.equal_self_ofRounded _ _)
    | _ => simp [Json.equal] at h
  | float x =>
    cases b with
    | float y =>
      have hunits : x.units = y.units := by simpa [Json.equal, Binary64.equal_iff] using h
      exact .nearest _ _ (.inl rfl) rfl rfl (Double.equal_finite.mpr hunits)
    | _ => simp [Json.equal] at h
  | _ => cases ha

namespace Json

/-- Numbers are in the order of equality when they have the same value. -/
theorem compare?_eq_iff {a b : Json} (ha : a.isNumber = true) (hb : b.isNumber = true) :
    a.compare? b = some .eq ↔ SameNumber a b := by
  obtain ⟨x, hx⟩ := Option.isSome_iff_exists.mp ((asDouble?_isSome a).trans ha)
  obtain ⟨y, hy⟩ := Option.isSome_iff_exists.mp ((asDouble?_isSome b).trans hb)
  have hword : ∀ {m n}, a.asInt64? = some m → b.asInt64? = some n →
      a.compare? b = some (Ord.compare m n) := by
    intro m n hm hn
    cases a with
    | whole n => simp [compare?, hm, hn]
    | float f => simp [compare?, hm, hn]
    | _ => cases ha
  have hnearest : a.asInt64? = none ∨ b.asInt64? = none → a.compare? b = x.compare? y := by
    intro hno
    cases a with
    | whole n => rcases hno with hno | hno <;> simp [compare?, hno, hx, hy]
    | float f => rcases hno with hno | hno <;> simp [compare?, hno, hx, hy]
    | _ => cases ha
  have hequal : x.compare? y = some .eq ↔ x.equal y = true := by simp [Double.equal]
  constructor
  · intro h
    cases hm : a.asInt64? with
    | none => exact .nearest x y (.inl hm) hx hy (hequal.mp (hnearest (.inl hm) ▸ h))
    | some m =>
      cases hn : b.asInt64? with
      | none => exact .nearest x y (.inr hn) hx hy (hequal.mp (hnearest (.inr hn) ▸ h))
      | some n =>
        obtain rfl : m = n := Std.compare_eq_iff_eq.mp (Option.some.inj (hword hm hn ▸ h))
        exact .word m hm hn
  · rintro (⟨n, hm, hn⟩ | ⟨x', y', hno, hx', hy', h⟩)
    · rw [hword hm hn]
      exact congrArg some (Std.compare_eq_iff_eq.mpr rfl)
    · obtain rfl := Option.some.inj (hx.symm.trans hx')
      obtain rfl := Option.some.inj (hy.symm.trans hy')
      rw [hnearest hno]
      exact hequal.mpr h

/-- **A filter takes two values for the same when they are equal up to the form of numbers.** -/
theorem sameValue_iff {a b : Json} : a.sameValue b = true ↔ Same a b := by
  unfold sameValue
  split
  · rename_i h
    rw [Bool.and_eq_true] at h
    rw [beq_iff_eq, compare?_eq_iff h.1 h.2]
    refine ⟨.inr, fun hsame => ?_⟩
    rcases hsame with hequal | hsame
    · exact .of_equal h.1 hequal
    · exact hsame
  · rename_i h
    refine ⟨.inl, fun hsame => ?_⟩
    rcases hsame with hequal | hsame
    · exact hequal
    · exact absurd (Bool.and_eq_true _ _ ▸ hsame.isNumber) h

end Json

/-! ### Values at a path -/

/-- **What a filter finds that asks for a value.** -/
theorem equalsAny_iff {values : List Json} {j : Json} :
    equalsAny values j = true ↔ Finds j values := by
  have hnull : j.isNull = true ↔ j = .null := by cases j <;> simp [Json.isNull]
  constructor
  · intro h
    unfold equalsAny at h
    split at h
    · rename_i hempty
      rw [List.isEmpty_iff.mp hempty]
      exact .nothing (hnull.mp h)
    · obtain ⟨v, hv, hfound⟩ := List.any_eq_true.mp h
      rcases Bool.or_eq_true_iff.mp hfound with hvalue | hitems
      · exact .value hv (Json.sameValue_iff.mp hvalue)
      · obtain ⟨item, hitem, hsame⟩ := List.any_eq_true.mp hitems
        cases v with
        | array items => exact .item hv hitem (Json.sameValue_iff.mp hsame)
        | _ => cases hitem
  · intro h
    have hany : ∀ {v : Json}, v ∈ values → (v.sameValue j ||
        (v.asArray?.getD []).any fun item => item.sameValue j) = true → equalsAny values j = true := by
      intro v hv hfound
      rw [equalsAny, if_neg (by simpa using List.ne_nil_of_mem hv)]
      exact List.any_eq_true.mpr ⟨v, hv, hfound⟩
    cases h with
    | value hmem h =>
      exact hany hmem (Bool.or_eq_true_iff.mpr (.inl (Json.sameValue_iff.mpr h)))
    | item hmem hitem h =>
      exact hany hmem (Bool.or_eq_true_iff.mpr
        (.inr (List.any_eq_true.mpr ⟨_, hitem, Json.sameValue_iff.mpr h⟩)))
    | nothing h => exact hnull.mpr h

end DocumentMapper
