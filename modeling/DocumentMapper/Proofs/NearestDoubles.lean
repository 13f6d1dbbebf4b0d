import DocumentMapper.Number.Double
import DocumentMapper.Number.Whole
import DocumentMapper.Proofs.ShortestDigits

/-!
# Rounding to the nearest number

The binary64 number nearest to a quotient of units is found by scaling until the significand has 53
bits. On one scale a larger quotient has no smaller significand, and on a larger scale even the
least significand stands for no less than the greatest one below. So a larger integer has no smaller
nearest number, although different integers can have the same one.

Numbers on the scale of the result or on a larger one are multiples of the same power of two, and
the quotient was rounded to the nearest of these. Numbers on a smaller scale are below all of them.

## Main results

* `Binary64.nearestQuotient_mono`: rounding keeps the order of magnitudes;
* `Double.ofInt_eq_finite`: every stored whole number has a nearest finite number;
* `Binary64.nearest_mono`: a larger integer has no smaller nearest number;
* `Binary64.units_nearest`: no number is nearer to a quotient of units than the one that it is
  rounded to.
-/

namespace DocumentMapper.Number

/-- A larger quotient is not rounded to less. -/
theorem roundHalfEven_mono {a b : Nat} (den : Nat) (h : a ≤ b) :
    roundHalfEven a den ≤ roundHalfEven b den := by
  rcases (Nat.div_le_div_right (c := den) h).lt_or_eq with hlt | heq
  · calc roundHalfEven a den ≤ a / den + 1 := roundHalfEven_le a den
      _ ≤ b / den := hlt
      _ ≤ roundHalfEven b den := le_roundHalfEven b den
  · have hmod : a % den ≤ b % den := by
      have ha := Nat.div_add_mod a den
      have hb := Nat.div_add_mod b den
      rw [heq] at ha
      omega
    unfold roundHalfEven
    simp only [heq]
    split_ifs <;> omega

/-- How far two numbers are from each other. -/
def distance (m n : Nat) : Nat :=
  ((m : Int) - n).natAbs

/-- No multiple of the denominator is nearer to the numerator than the one with the rounded
quotient, and if another one is as near, the rounded quotient is even. -/
theorem roundHalfEven_nearest (num : Nat) {den : Nat} (hden : 0 < den) (c : Nat) :
    distance (roundHalfEven num den * den) num ≤ distance (c * den) num ∧
      (distance (roundHalfEven num den * den) num = distance (c * den) num →
        c = roundHalfEven num den ∨ roundHalfEven num den % 2 = 0) := by
  obtain ⟨q, hq⟩ : ∃ q, q = num / den := ⟨_, rfl⟩
  obtain ⟨r, hr⟩ : ∃ r, r = num % den := ⟨_, rfl⟩
  have hnum : q * den + r = num := by rw [hq, hr, Nat.mul_comm, Nat.div_add_mod]
  have hlt : r < den := hr ▸ Nat.mod_lt num hden
  have hround : roundHalfEven num den = q ∧ (2 * r < den ∨ 2 * r = den ∧ q % 2 = 0) ∨
      roundHalfEven num den = q + 1 ∧ (den < 2 * r ∨ 2 * r = den ∧ q % 2 = 1) := by
    unfold roundHalfEven
    rw [← hq, ← hr]
    dsimp only
    split_ifs <;> omega
  have hnext : (q + 1) * den = q * den + den := Nat.succ_mul q den
  -- The other multiples are at least one step farther off on either side.
  have hside : c = q ∨ c = q + 1 ∨ c * den + den ≤ q * den ∨ q * den + 2 * den ≤ c * den := by
    rcases Nat.lt_or_ge c q with hless | hge
    · have hstep := Nat.mul_le_mul_right den (show c + 1 ≤ q from hless)
      rw [Nat.succ_mul] at hstep
      exact .inr (.inr (.inl hstep))
    · by_cases hfar : q + 2 ≤ c
      · have hstep := Nat.mul_le_mul_right den hfar
        rw [Nat.add_mul] at hstep
        exact .inr (.inr (.inr hstep))
      · omega
  unfold distance
  rcases hround with ⟨heq, hrest⟩ | ⟨heq, hrest⟩ <;>
    rcases hside with rfl | rfl | hside | hside <;> rw [heq] <;> omega

namespace Binary64

/-- The scale of a number of units. -/
theorem scaleOf_one (n : Nat) : scaleOf n 1 = n.log2 - 52 := by
  rw [scaleOf, Nat.div_one]

/-- The distance from zero of the number nearest to `num / den` units, if there is no largest
one. -/
def nearestQuotient (num den : Nat) : Nat :=
  roundHalfEven num (den * Nat.pow 2 (scaleOf num den)) * Nat.pow 2 (scaleOf num den)

/-- The distance from zero of the number nearest to `n` units, if there is no largest one. -/
def nearestUnits (n : Nat) : Nat :=
  roundHalfEven n (Nat.pow 2 (scaleOf n 1)) * Nat.pow 2 (scaleOf n 1)

@[simp] theorem nearestQuotient_one (n : Nat) : nearestQuotient n 1 = nearestUnits n := by
  rw [nearestQuotient, Nat.one_mul, nearestUnits]

section

variable {num den : Nat}

/-- A significand is at most the next power of two. -/
theorem roundHalfEven_scaleOf_le (num den : Nat) :
    roundHalfEven num (den * Nat.pow 2 (scaleOf num den)) ≤ 9007199254740992 := by
  have hlt : num / den < 9007199254740992 * Nat.pow 2 (scaleOf num den) := by
    calc num / den < 2 ^ ((num / den).log2 + 1) := Nat.lt_log2_self
      _ ≤ 2 ^ (53 + scaleOf num den) :=
        Nat.pow_le_pow_right (by decide) (by rw [scaleOf]; omega)
      _ = 9007199254740992 * Nat.pow 2 (scaleOf num den) := by rw [Nat.pow_add]; rfl
  have hdiv : num / (den * Nat.pow 2 (scaleOf num den)) < 9007199254740992 := by
    rw [← Nat.div_div_eq_div_mul]
    exact (Nat.div_lt_iff_lt_mul (pow_two_pos _)).mpr hlt
  exact (roundHalfEven_le _ _).trans hdiv

/-- The scale leaves enough for a significand that fills its bits. -/
theorem scaled_le (hden : 0 < den) (h : scaleOf num den ≠ 0) :
    4503599627370496 * (den * Nat.pow 2 (scaleOf num den)) ≤ num := by
  have hle : 4503599627370496 * Nat.pow 2 (scaleOf num den) ≤ num / den := by
    rw [scaleOf] at h ⊢
    have hne : num / den ≠ 0 := by
      intro hzero
      rw [hzero] at h
      exact h (by decide)
    calc 4503599627370496 * Nat.pow 2 ((num / den).log2 - 52)
        = 2 ^ (52 + ((num / den).log2 - 52)) := by rw [Nat.pow_add]; rfl
      _ = 2 ^ (num / den).log2 := by rw [Nat.add_sub_cancel' (by omega)]
      _ ≤ num / den := Nat.log2_self_le hne
  rw [Nat.mul_comm den, ← Nat.mul_assoc]
  exact (Nat.le_div_iff_mul_le hden).mp hle

/-- A scaled significand fills its bits. -/
theorem le_roundHalfEven_scaleOf (hden : 0 < den) (h : scaleOf num den ≠ 0) :
    4503599627370496 ≤ roundHalfEven num (den * Nat.pow 2 (scaleOf num den)) :=
  ((Nat.le_div_iff_mul_le (Nat.mul_pos hden (pow_two_pos _))).mpr (scaled_le hden h)).trans
    (le_roundHalfEven _ _)

end

/-- The scale grows with the number. -/
theorem scaleOf_mono {a b : Nat} (den : Nat) (h : a ≤ b) : scaleOf a den ≤ scaleOf b den := by
  have hle : a / den ≤ b / den := Nat.div_le_div_right h
  rw [scaleOf, scaleOf]
  rcases Nat.eq_zero_or_pos (a / den) with hzero | hpos
  · rw [hzero]
    exact (Nat.zero_le _ : 0 - 52 ≤ _)
  · have hlog : (a / den).log2 ≤ (b / den).log2 :=
      (Nat.le_log2 (by omega)).mpr ((Nat.log2_self_le hpos.ne').trans hle)
    omega

/-- **Rounding keeps the order of magnitudes.** -/
theorem nearestQuotient_mono {a b den : Nat} (hden : 0 < den) (h : a ≤ b) :
    nearestQuotient a den ≤ nearestQuotient b den := by
  unfold nearestQuotient
  rcases (scaleOf_mono den h).eq_or_lt with hsame | hless
  · rw [hsame]
    exact Nat.mul_le_mul_right _ (roundHalfEven_mono _ h)
  · -- The greatest significand of a scale is twice the least one of the next scale.
    refine Shortest.mul_pow_two_le hless ((roundHalfEven_scaleOf_le a den).trans ?_)
    have := le_roundHalfEven_scaleOf hden (show scaleOf b den ≠ 0 by omega)
    omega

section

variable {negative : Bool} {num den : Nat} {x : Binary64}

/-- A rounded quotient is the nearest number. -/
theorem magnitude_of_ofUnits? (hden : 0 < den) (h : ofUnits? negative num den = some x) :
    x.negative = negative ∧ x.magnitude = nearestQuotient num den := by
  have hle := roundHalfEven_scaleOf_le num den
  simp only [ofUnits?] at h
  split at h
  · obtain rfl := Option.some.inj h
    exact ⟨rfl, rfl⟩
  · rename_i hnot
    split at h
    · rename_i hexponent
      obtain rfl := Option.some.inj h
      refine ⟨rfl, ?_⟩
      -- The significand was rounded up to a power of two.
      have hfull : roundHalfEven num (den * Nat.pow 2 (scaleOf num den)) = 9007199254740992 := by
        by_contra hne
        refine hnot ⟨by omega, by omega, ?_⟩
        by_cases hzero : scaleOf num den = 0
        · exact .inl hzero
        · exact .inr (le_roundHalfEven_scaleOf hden hzero)
      have hpow : Nat.pow 2 (scaleOf num den + 1) = Nat.pow 2 (scaleOf num den) * 2 :=
        Nat.pow_succ ..
      simp only [magnitude, power, nearestQuotient, hfull, hpow]
      omega
    · cases h

/-- Numbers of units that are not too large can be rounded. -/
theorem isSome_ofUnits? (negative : Bool) {n : Nat} (h : n < 2 ^ 2097) :
    (ofUnits? negative n 1).isSome := by
  have hscale : scaleOf n 1 + 1 ≤ 2045 := by
    rw [scaleOf_one]
    rcases Nat.eq_zero_or_pos n with rfl | hn
    · decide
    · have hlog := (Nat.log2_lt hn.ne').mpr h
      omega
  simp only [ofUnits?, Nat.one_mul]
  split
  · rfl
  · rfl

/-- A number with a smaller scale than that of a quotient is below all scaled significands that fill
their bits. -/
theorem magnitude_lt_of_exponent_lt {y : Binary64} (h : y.exponent < scaleOf num den) :
    y.magnitude < 4503599627370496 * Nat.pow 2 (scaleOf num den) := by
  calc y.magnitude < 9007199254740992 * Nat.pow 2 y.exponent :=
        Nat.mul_lt_mul_of_pos_right y.significand_lt (pow_two_pos _)
    _ ≤ 4503599627370496 * Nat.pow 2 (scaleOf num den) := Shortest.mul_pow_two_le h (by decide)

/-- No magnitude is nearer to a quotient than the rounded one, and if another one is as near, the
rounded significand is even. Distances are counted in parts of a unit. -/
theorem nearestQuotient_nearest (num : Nat) (hden : 0 < den) (y : Binary64) :
    distance (nearestQuotient num den * den) num ≤ distance (y.magnitude * den) num ∧
      (distance (nearestQuotient num den * den) num = distance (y.magnitude * den) num →
        y.magnitude = nearestQuotient num den ∨
          roundHalfEven num (den * Nat.pow 2 (scaleOf num den)) % 2 = 0) := by
  have hstep : 0 < den * Nat.pow 2 (scaleOf num den) := Nat.mul_pos hden (pow_two_pos _)
  have hnearest := roundHalfEven_nearest num hstep
  have hscaled : ∀ m, m * Nat.pow 2 (scaleOf num den) * den =
      m * (den * Nat.pow 2 (scaleOf num den)) := fun m => by
    rw [Nat.mul_assoc, Nat.mul_comm den]
  rcases Nat.lt_or_ge y.exponent (scaleOf num den) with hsmall | hlarge
  · -- The least number with a full significand on the scale is nearer.
    have hlt : y.magnitude * den < 4503599627370496 * (den * Nat.pow 2 (scaleOf num den)) := by
      rw [← hscaled]
      exact Nat.mul_lt_mul_of_pos_right (magnitude_lt_of_exponent_lt hsmall) hden
    have hle := scaled_le hden (show scaleOf num den ≠ 0 by omega)
    have hfull := (hnearest 4503599627370496).1
    unfold nearestQuotient
    rw [hscaled]
    unfold distance at hfull ⊢
    omega
  · obtain ⟨k, hk⟩ := Nat.exists_eq_add_of_le hlarge
    have hmultiple :
        y.magnitude = y.significand * Nat.pow 2 k * Nat.pow 2 (scaleOf num den) := by
      rw [magnitude, hk, Nat.mul_assoc]
      congr 1
      simp only [Nat.pow_eq]
      rw [Nat.pow_add, Nat.mul_comm]
    obtain ⟨hle, htie⟩ := hnearest (y.significand * Nat.pow 2 k)
    unfold nearestQuotient
    rw [hmultiple, hscaled, hscaled]
    refine ⟨hle, fun heq => (htie heq).imp (fun h => ?_) id⟩
    rw [h]

/-- An even rounded quotient is an even significand. -/
theorem significand_even_of_ofUnits? (h : ofUnits? negative num den = some x)
    (heven : roundHalfEven num (den * Nat.pow 2 (scaleOf num den)) % 2 = 0) :
    x.significand % 2 = 0 := by
  simp only [ofUnits?] at h
  split at h
  · obtain rfl := Option.some.inj h
    exact heven
  · split at h
    · obtain rfl := Option.some.inj h
      exact (by decide : 4503599627370496 % 2 = 0)
    · cases h

/-- **The number that a quotient of units is rounded to is a nearest one**: no number is nearer, and
if another value is as near, the significand is even. Distances are counted in parts of a unit. -/
theorem units_nearest (hden : 0 < den) (h : ofUnits? negative num den = some x) {t : Int}
    (ht : t = if negative then -(num : Int) else num) (y : Binary64) :
    (x.units * den - t).natAbs ≤ (y.units * den - t).natAbs ∧
      ((x.units * den - t).natAbs = (y.units * den - t).natAbs →
        y.units = x.units ∨ x.significand % 2 = 0) := by
  obtain ⟨hsign, hmagnitude⟩ := magnitude_of_ofUnits? hden h
  have heven := significand_even_of_ofUnits? h
  obtain ⟨hle, htie⟩ := nearestQuotient_nearest num hden y
  obtain ⟨hlezero, htiezero⟩ := nearestQuotient_nearest num hden (zero false)
  have hnone : (zero false).magnitude = 0 := by simp [magnitude, zero]
  rw [← hmagnitude] at hle htie
  rw [← hmagnitude, hnone, Nat.zero_mul] at hlezero htiezero
  replace htie := fun heq => (htie heq).imp_right heven
  replace htiezero := fun heq => (htiezero heq).imp_right heven
  have hx : x.units = if negative then -(x.magnitude : Int) else x.magnitude := by
    rw [units, hsign]
  have hy : y.units = -(y.magnitude : Int) ∨ y.units = y.magnitude := by
    unfold units
    split
    · exact .inl rfl
    · exact .inr rfl
  have hxparts : x.units * den =
      if negative then -((x.magnitude * den : Nat) : Int) else (x.magnitude * den : Nat) := by
    rw [hx]
    split <;> push_cast <;> ring
  have hyparts : y.units = -(y.magnitude : Int) ∧ y.units * den = -(y.magnitude * den : Nat) ∨
      y.units = y.magnitude ∧ y.units * den = (y.magnitude * den : Nat) := by
    refine hy.imp (fun h => ⟨h, ?_⟩) fun h => ⟨h, ?_⟩ <;> rw [h] <;> push_cast <;> ring
  have hyzero : y.magnitude * den = 0 → y.magnitude = 0 := fun h =>
    (Nat.mul_eq_zero.mp h).resolve_right hden.ne'
  unfold distance at hle htie hlezero htiezero
  rw [hxparts]
  clear heven h hxparts hy hmagnitude hsign hnone
  generalize x.magnitude * den = a at *
  generalize y.magnitude * den = b at *
  generalize y.units * den = c at *
  -- A number on the other side of zero is as near as another one only if both are zero.
  cases negative with
  | true =>
    rw [if_pos rfl] at hx ht ⊢
    rcases hyparts with ⟨hyunits, hyparts⟩ | ⟨hyunits, hyparts⟩
    · clear hlezero htiezero hyzero
      omega
    · clear hle htie
      omega
  | false =>
    rw [if_neg (by decide)] at hx ht ⊢
    rcases hyparts with ⟨hyunits, hyparts⟩ | ⟨hyunits, hyparts⟩
    · clear hle htie
      omega
    · clear hlezero htiezero hyzero
      omega

end

/-- The number nearest to an integer, in units. -/
def nearest (n : Int) : Int :=
  if n < 0 then -nearestUnits (n.natAbs * unitsPerOne) else nearestUnits (n.natAbs * unitsPerOne)

/-- **A larger integer has no smaller nearest number.** -/
theorem nearest_mono {m n : Int} (h : m ≤ n) : nearest m ≤ nearest n := by
  have hmono : ∀ {a b : Nat}, a ≤ b →
      nearestUnits (a * unitsPerOne) ≤ nearestUnits (b * unitsPerOne) := fun hab => by
    rw [← nearestQuotient_one, ← nearestQuotient_one]
    exact nearestQuotient_mono Nat.one_pos (Nat.mul_le_mul_right _ hab)
  unfold nearest
  split_ifs with hm hn hn
  · have hunits := hmono (show n.natAbs ≤ m.natAbs by omega)
    omega
  · omega
  · omega
  · have hunits := hmono (show m.natAbs ≤ n.natAbs by omega)
    omega

end Binary64

/-- **Every stored whole number has a nearest finite number.** -/
theorem Double.ofInt_eq_finite (w : Whole) :
    ∃ x, Double.ofInt w.val = .finite x ∧ x.units = Binary64.nearest w.val := by
  have hscaled : ∀ {k e l : Nat}, k < 2 ^ 64 → 64 + e ≤ l → k * Nat.pow 2 e < 2 ^ l := by
    intro k e l hk hl
    refine Nat.lt_of_lt_of_le ?_ (Nat.pow_le_pow_right (by decide) hl)
    rw [Nat.pow_add]
    exact Nat.mul_lt_mul_of_pos_right hk (pow_two_pos e)
  have hrange : w.val.natAbs * Binary64.unitsPerOne < 2 ^ 2097 := by
    have hlower := w.lower
    have hupper := w.upper
    unfold Binary64.unitsPerOne
    apply hscaled
    · omega
    · decide
  obtain ⟨x, hx⟩ := Option.isSome_iff_exists.mp
    (Binary64.isSome_ofUnits? (decide (w.val < 0)) hrange)
  obtain ⟨hsign, hmagnitude⟩ := Binary64.magnitude_of_ofUnits? Nat.one_pos hx
  refine ⟨x, by rw [Double.ofInt, Binary64.ofInt?, hx]; rfl, ?_⟩
  simp [Binary64.units, Binary64.nearest, hsign, hmagnitude]

end DocumentMapper.Number
