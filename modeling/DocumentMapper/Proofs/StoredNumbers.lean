import DocumentMapper.Filter.Operand
import DocumentMapper.Proofs.NearestDoubles
import DocumentMapper.Proofs.Runs

/-!
# Numbers in fields of numbers

A field of integers stores integers and binary64 numbers that have no fractional part, a field of
binary64 numbers stores both kinds. The first one keeps the value of what it stores; the second one
has the nearest binary64 number, which is the value itself where there is one. What a filter
compares with is what the field would store.

A binary64 number without fractional part can lie beyond the signed words. The results here leave
such a number in a field of integers out.

## Main results

* `Binary64.isNearest_of_ofUnits?`, `Binary64.isNearest_of_ofInt?`: a quotient of units, or an
  integer, is rounded to the nearest number;
* `Field.stores_number`: what a field stores of a number, and of which ones.
-/

namespace DocumentMapper

open Number

/-! ### Exact values -/

namespace Number.Binary64

/-- The exact value. -/
def value (x : Binary64) : ℚ :=
  x.units / unitsPerOne

/-- No number is nearer to `q`, and if another value is as near, the significand is even. -/
structure IsNearest (x : Binary64) (q : ℚ) : Prop where
  nearest (y : Binary64) : |x.value - q| ≤ |y.value - q|
  even (y : Binary64) (h : |x.value - q| = |y.value - q|) :
    y.value = x.value ∨ x.significand % 2 = 0

theorem unitsPerOne_pos_rat : (0 : ℚ) < unitsPerOne := by
  exact_mod_cast unitsPerOne_pos

theorem value_eq_iff {x y : Binary64} : x.value = y.value ↔ x.units = y.units := by
  rw [value, value, div_left_inj' unitsPerOne_pos_rat.ne', Int.cast_inj]

/-- A number is an integer if its units are those of the integer. -/
theorem value_eq_intCast {x : Binary64} {n : Int} : x.value = n ↔ x.units = n * unitsPerOne := by
  rw [value, div_eq_iff unitsPerOne_pos_rat.ne']
  exact_mod_cast Iff.rfl

theorem partsPerOne_pos {den : Nat} (hden : 0 < den) : (0 : ℚ) < den * unitsPerOne :=
  mul_pos (by exact_mod_cast hden) unitsPerOne_pos_rat

/-- The distance from a quotient of units, counted in parts of a unit. -/
theorem abs_value_sub (x : Binary64) (t : Int) {den : Nat} (hden : 0 < den) :
    |x.value - t / (den * unitsPerOne)| =
      (x.units * den - t).natAbs / ((den : ℚ) * unitsPerOne) := by
  have hparts : (0 : ℚ) < den := by exact_mod_cast hden
  have hpos := partsPerOne_pos hden
  have hsub : x.value - t / (den * unitsPerOne) =
      (x.units * den - t : Int) / ((den : ℚ) * unitsPerOne) := by
    rw [value, Int.cast_sub, Int.cast_mul, Int.cast_natCast, sub_div,
      mul_comm (x.units : ℚ), mul_div_mul_left _ _ hparts.ne']
  rw [hsub, abs_div, abs_of_pos hpos, ← Int.cast_abs, Int.abs_eq_natAbs, Int.cast_natCast]

/-- A number is the nearest one to itself. -/
theorem isNearest_value (x : Binary64) : x.IsNearest x.value where
  nearest y := by
    rw [sub_self, abs_zero]
    exact abs_nonneg _
  even y h := by
    rw [sub_self, abs_zero, eq_comm, abs_eq_zero, sub_eq_zero] at h
    exact .inl h

/-- **A quotient of units is rounded to the nearest number.** -/
theorem isNearest_of_ofUnits? {negative : Bool} {num den : Nat} {x : Binary64} {t : Int}
    (hden : 0 < den) (h : ofUnits? negative num den = some x)
    (ht : t = if negative then -(num : Int) else num) : x.IsNearest (t / (den * unitsPerOne)) where
  nearest y := by
    rw [abs_value_sub x t hden, abs_value_sub y t hden]
    exact div_le_div_of_nonneg_right (Nat.cast_le.mpr (units_nearest hden h ht y).1)
      (partsPerOne_pos hden).le
  even y hsame := by
    rw [abs_value_sub x t hden, abs_value_sub y t hden, div_left_inj' (partsPerOne_pos hden).ne',
      Nat.cast_inj] at hsame
    exact ((units_nearest hden h ht y).2 hsame).imp_left value_eq_iff.mpr

/-- **An integer is rounded to the nearest number.** -/
theorem isNearest_of_ofInt? {n : Int} {x : Binary64} (h : ofInt? n = some x) : x.IsNearest n := by
  have ht : n * unitsPerOne =
      if decide (n < 0) then -((n.natAbs * unitsPerOne : Nat) : Int)
      else (n.natAbs * unitsPerOne : Nat) := by
    rw [Nat.cast_mul]
    rcases Int.lt_or_le n 0 with hn | hn
    · rw [if_pos (by simpa using hn), Int.ofNat_natAbs_of_nonpos hn.le, neg_mul, neg_neg]
    · rw [if_neg (by simpa using hn), Int.natAbs_of_nonneg hn]
  have hvalue : ((n * unitsPerOne : Int) : ℚ) / ((1 : Nat) * unitsPerOne) = n := by
    rw [Nat.cast_one, one_mul, Int.cast_mul, Int.cast_natCast,
      mul_div_cancel_right₀ _ unitsPerOne_pos_rat.ne']
  exact hvalue ▸ isNearest_of_ofUnits? Nat.one_pos h ht

/-- The nearest number is the value itself exactly if some number is. -/
theorem IsNearest.value_eq_iff {x : Binary64} {q : ℚ} (h : x.IsNearest q) :
    x.value = q ↔ ∃ y : Binary64, y.value = q := by
  refine ⟨fun hx => ⟨x, hx⟩, ?_⟩
  rintro ⟨y, rfl⟩
  have hle := h.nearest y
  rw [sub_self, abs_zero] at hle
  exact sub_eq_zero.mp (abs_eq_zero.mp (le_antisymm hle (abs_nonneg _)))

/-- The numbers without fractional part are the integers among the numbers. -/
theorem isWhole_iff {x : Binary64} : x.isWhole = true ↔ ∃ n : Int, x.value = n := by
  have hunits : x.isWhole = true ↔ (unitsPerOne : Int) ∣ x.units := by
    rw [isWhole, beq_iff_eq, ← Nat.dvd_iff_mod_eq_zero, ← Int.natCast_dvd_natCast, units]
    split
    · rw [dvd_neg]
    · rfl
  rw [hunits]
  constructor
  · rintro ⟨n, hn⟩
    exact ⟨n, value_eq_intCast.mpr (by rw [hn, Int.mul_comm])⟩
  · rintro ⟨n, hn⟩
    exact ⟨n, by rw [value_eq_intCast.mp hn, Int.mul_comm]⟩

theorem truncate_of_value_eq {x : Binary64} {n : Int} (h : x.value = n) : x.truncate = n := by
  have hpos : 0 < unitsPerOne := unitsPerOne_pos
  rw [truncate, value_eq_intCast.mp h]
  generalize unitsPerOne = units at hpos
  exact Int.mul_tdiv_cancel n (by omega)

end Number.Binary64

open Binary64

/-- A number that is a signed word is cut to the word. -/
theorem Number.Double.toInt64_of_value_eq {x : Binary64} {n : Int} (h : x.value = n)
    (hrange : -9223372036854775808 ≤ n ∧ n < 9223372036854775808) :
    (Double.finite x).toInt64.toInt = n := by
  have hmin : Int64.minValue.toInt = -9223372036854775808 := rfl
  have hmax : Int64.maxValue.toInt = 9223372036854775807 := rfl
  simp only [toInt64, truncate_of_value_eq h]
  rw [hmin, hmax, if_neg (by omega), if_neg (by omega)]
  exact Int64.toInt_ofInt_of_le hrange.1 hrange.2

/-- A finite value that an integer is rounded to is the number that it is rounded to. -/
theorem Number.Double.ofInt_eq_finite_iff {n : Int} {x : Binary64} :
    Double.ofInt n = .finite x ↔ Binary64.ofInt? n = some x := by
  rw [ofInt]
  generalize Binary64.ofInt? n = rounded
  cases rounded <;> simp [ofRounded]

/-- Every stored whole number has a nearest finite number. -/
theorem Number.Double.exists_isNearest (w : Whole) :
    ∃ x : Binary64, Double.ofInt w.val = .finite x ∧ x.IsNearest w.val := by
  obtain ⟨x, hx, -⟩ := Double.ofInt_eq_finite w
  exact ⟨x, hx, isNearest_of_ofInt? (Double.ofInt_eq_finite_iff.mp hx)⟩

/-- The exact value of an integer or of a finite binary64 number. -/
def Value.number? : Value → Option ℚ
  | .int n => some n.toInt
  | .float (.finite x) => some x.value
  | _ => none

/-- The exact value of a stored number. -/
def Json.number? : Json → Option ℚ
  | .whole n => some n.val
  | .float x => some x.value
  | _ => none

namespace Field

open Drawing

variable {f : Field} {s : Scalar} {v : Value} {q : ℚ}

/-- A value that passes the validator goes on to be stored. -/
theorem gives_check_bind_iff {β : Type} {x : Unit → Drawing β} {b : β} :
    (f.check v >>= x).Gives b ↔ f.validator.bind (·.objection? v) = none ∧ (x ()).Gives b := by
  unfold check
  cases f.validator.bind (·.objection? v) with
  | none => exact (and_iff_right rfl).symm
  | some cause =>
    refine ⟨fun h => ?_, fun h => nomatch h.1⟩
    obtain ⟨_, hthrow, -⟩ := h.of_bind
    exact absurd hthrow not_gives_throw

/-- A number is stored as a value without parts. -/
theorem encode_number (hkind : f.kind = .scalar s) (hv : v.number? = some q) :
    v.encode f = (f.check v >>= fun _ => f.encodeScalar s v) := by
  cases v with
  | int n => simp only [Value.encode, encodeLeaf, hkind]
  | float x => simp only [Value.encode, encodeLeaf, hkind]
  | _ => cases hv

/-- A filter compares a number with what the field would store. -/
theorem operand_number (hkind : f.kind = .scalar s) (hv : v.number? = some q)
    (op : Option String) : f.operand op v = v.encode f := by
  obtain ⟨name, storageName, isRequired, kind, dflt, validator⟩ := f
  obtain rfl : kind = .scalar s := hkind
  cases v with
  | int n => cases op <;> rfl
  | float x => cases op <;> rfl
  | _ => cases hv

/-- A field of integers takes the numbers that are integers, as themselves. -/
theorem gives_encodeScalar_int (hv : v.number? = some q)
    (hrange : -9223372036854775808 ≤ q ∧ q < 9223372036854775808) {j : Json} :
    (f.encodeScalar .int v).Gives j ↔ ∃ n : Int64, q = n.toInt ∧ j = .ofInt64 n := by
  cases v with
  | int n =>
    obtain rfl := Option.some.inj hv
    simp only [encodeScalar, gives_pure]
    constructor
    · rintro rfl
      exact ⟨n, rfl, rfl⟩
    · rintro ⟨m, hm, rfl⟩
      rw [Int64.toInt_inj.mp (Int.cast_injective hm)]
  | float x =>
    cases x with
    | finite x =>
      obtain rfl := Option.some.inj hv
      simp only [encodeScalar]
      by_cases hwhole : (Double.finite x).isWhole = true
      · obtain ⟨n, hn⟩ := isWhole_iff.mp hwhole
        have hword : (Double.finite x).toInt64.toInt = n := by
          rw [hn] at hrange
          exact Double.toInt64_of_value_eq hn (by exact_mod_cast hrange)
        rw [if_pos hwhole, gives_pure]
        constructor
        · rintro rfl
          exact ⟨_, by rw [hn, hword], rfl⟩
        · rintro ⟨m, hm, rfl⟩
          rw [hn, Int.cast_inj, ← hword] at hm
          rw [Int64.toInt_inj.mp hm]
      · rw [if_neg hwhole]
        refine iff_of_false not_gives_throw ?_
        rintro ⟨m, hm, -⟩
        exact hwhole (isWhole_iff.mpr ⟨m.toInt, hm⟩)
    | _ => cases hv
  | _ => cases hv

/-- A field of binary64 numbers takes all numbers, as the nearest ones. -/
theorem gives_encodeScalar_float (hv : v.number? = some q) :
    ∃ x : Binary64, x.IsNearest q ∧ ∀ j, (f.encodeScalar .float v).Gives j ↔ j = .float x := by
  cases v with
  | int n =>
    obtain rfl := Option.some.inj hv
    obtain ⟨x, hx, hnearest⟩ := Double.exists_isNearest (.ofInt64 n)
    have hx : Double.ofInt n.toInt = .finite x := hx
    refine ⟨x, hnearest, fun j => ?_⟩
    rw [encodeScalar, hx, Double.toJson, gives_pure]
  | float x =>
    cases x with
    | finite x =>
      obtain rfl := Option.some.inj hv
      refine ⟨x, isNearest_value x, fun j => ?_⟩
      rw [encodeScalar, Double.toJson, gives_pure]
    | _ => cases hv
  | _ => cases hv

/-- **What fields of numbers store.** The value is an integer or a finite binary64 number, and lies
in the range of signed words if the field is one of integers. A filter compares with what the field
would store. A field of integers stores the value itself, a field of binary64 numbers the nearest
one, which is the value itself where some number is. A number is stored if the validator does not
refuse it and if it is an integer, where the field is one of integers. -/
theorem stores_number (hkind : f.kind = .scalar s) (hs : s = .int ∨ s = .float)
    (hv : v.number? = some q)
    (hrange : s = .int → -9223372036854775808 ≤ q ∧ q < 9223372036854775808) :
    (∀ op j, (f.operand op v).Gives j ↔ (v.encode f).Gives j) ∧
      (∀ j, (v.encode f).Gives j →
        (s = .int → j.number? = some q) ∧
          (s = .float → ∃ x, j = .float x ∧ x.IsNearest q ∧
            (x.value = q ↔ ∃ y : Binary64, y.value = q))) ∧
      ((∃ j, (v.encode f).Gives j) ↔
        f.validator.bind (·.objection? v) = none ∧ (s = .int → ∃ n : Int, q = n)) := by
  refine ⟨fun op j => by rw [operand_number hkind hv], ?_⟩
  simp only [encode_number hkind hv, gives_check_bind_iff]
  rcases hs with rfl | rfl
  · have hstored := @gives_encodeScalar_int f v q hv (hrange rfl)
    simp only [hstored]
    refine ⟨?_, ?_⟩
    · rintro j ⟨-, n, hn, rfl⟩
      exact ⟨fun _ => by rw [hn]; rfl, nofun⟩
    · constructor
      · rintro ⟨_, hrule, n, hn, -⟩
        exact ⟨hrule, fun _ => ⟨n.toInt, hn⟩⟩
      · rintro ⟨hrule, hinteger⟩
        obtain ⟨n, rfl⟩ := hinteger trivial
        have hword : (Int64.ofInt n).toInt = n := by
          obtain ⟨hlower, hupper⟩ := hrange rfl
          exact Int64.toInt_ofInt_of_le (by exact_mod_cast hlower) (by exact_mod_cast hupper)
        exact ⟨_, hrule, .ofInt n, by rw [hword], rfl⟩
  · obtain ⟨x, hnearest, hstored⟩ := @gives_encodeScalar_float f v q hv
    simp only [hstored]
    refine ⟨?_, ?_⟩
    · rintro j ⟨-, rfl⟩
      exact ⟨nofun, fun _ => ⟨x, rfl, hnearest, hnearest.value_eq_iff⟩⟩
    · constructor
      · rintro ⟨_, hrule, -⟩
        exact ⟨hrule, nofun⟩
      · rintro ⟨hrule, -⟩
        exact ⟨_, hrule, rfl⟩

/-- A weight, not below zero. -/
def weight : Field :=
  { Field.ofKind "weight" (.scalar .float) with validator := some .nonNegative }

/-- The word beyond which binary64 numbers leave the odd ones out. -/
def oddWord : Value :=
  .int 9007199254740993

theorem ofInt_oddWord :
    Double.ofInt 9007199254740993 = .finite (.power false 1075 (by decide)) := by
  decide +kernel

/-- A weight is stored, and its value is one of the nearest numbers. -/
theorem stores_number_weight : ∃ x : Binary64, (oddWord.encode weight).Gives (.float x) ∧
    x.IsNearest 9007199254740993 := by
  have hvalue : oddWord.number? = some 9007199254740993 := by
    simp [oddWord, Value.number?]
  obtain ⟨-, hstored, haccepted⟩ := stores_number (f := weight) rfl (.inr rfl) hvalue nofun
  obtain ⟨j, hj⟩ := haccepted.mpr ⟨rfl, nofun⟩
  obtain ⟨x, rfl, hnearest, -⟩ := (hstored j hj).2 rfl
  exact ⟨x, hj, hnearest⟩

/-- A weight is stored as the number below it. -/
theorem weight_rounded : ¬ (∀ (f : Field) (s : Scalar) (v : Value) (q : ℚ) (j : Json),
    f.kind = .scalar s → s = .int ∨ s = .float → v.number? = some q → (v.encode f).Gives j →
      j.number? = some q) := by
  intro h
  have hvalue : oddWord.number? = some 9007199254740993 := by
    simp [oddWord, Value.number?]
  have hstored : (oddWord.encode weight).Gives (.float (.power false 1075 (by decide))) := by
    rw [encode_number rfl hvalue, gives_check_bind_iff]
    refine ⟨rfl, ?_⟩
    have hencode : weight.encodeScalar .float oddWord =
        (Double.ofInt 9007199254740993).toJson := rfl
    rw [hencode, ofInt_oddWord, Double.toJson, gives_pure]
  have heven : (Binary64.power false 1075 (by decide)).value = (9007199254740992 : Int) :=
    value_eq_intCast.mpr (by decide +kernel)
  have hexact := Option.some.inj (h weight .float oddWord _ _ rfl (.inr rfl) hvalue hstored)
  rw [heven] at hexact
  norm_num at hexact

end Field

end DocumentMapper
