import Mathlib.Algebra.Order.Field.Rat
import Mathlib.Tactic.FieldSimp
import Mathlib.Tactic.Linarith
import Mathlib.Tactic.Positivity
import Mathlib.Tactic.Ring
import DocumentMapper.Number.Shortest

/-!
# Shortest digits tell numbers apart

The reals that round to a binary64 number make up an interval, and two numbers have no such real in
common: where their intervals meet, one of the two significands is odd, and its interval is open.
The search for digits ends at a decimal in the interval. It does end, because the interval is wider
than the step of the grid with seventeen digits. So numbers with the same shortest decimal have the
same magnitude.

Intervals are given in quarters of a unit, and so are decimals when they are compared with them.

## Main results

* `Binary64.shortest_holds`: the shortest decimal rounds to the number;
* `Binary64.magnitude_eq_of_holds`: a decimal rounds to one magnitude only;
* `Binary64.magnitude_eq_of_shortest`: the shortest decimal determines the magnitude.
-/

namespace DocumentMapper.Number

open Shortest

/-- The number that a decimal denotes. -/
def Decimal.value (d : Decimal) : ℚ :=
  d.digits * 10 ^ d.exponent

/-- The same in quarters of a unit. -/
def Decimal.quarters (d : Decimal) : ℚ :=
  d.value * (4 * Binary64.unitsPerOne)

theorem pow_two_pos (n : Nat) : 0 < Nat.pow 2 n :=
  Nat.pow_pos (by decide)

theorem Binary64.unitsPerOne_pos : 0 < Binary64.unitsPerOne := by
  unfold unitsPerOne
  apply pow_two_pos

namespace Shortest

/-- Whether a number of quarters lies in an interval. -/
def Interval.Holds (i : Interval) (q : ℚ) : Prop :=
  if i.closed then i.lower ≤ q ∧ q ≤ i.upper else i.lower < q ∧ q < i.upper

/-! ### Grids -/

@[simp] theorem grid_exponent (e : Int) : (grid e).exponent = e := by
  unfold grid
  split <;> rfl

theorem grid_den_pos (e : Int) : 0 < (grid e).den := by
  unfold grid
  split
  · exact Nat.one_pos
  · exact Nat.pow_pos (by decide)

theorem grid_num_pos (e : Int) : 0 < (grid e).num := by
  have hunits := Binary64.unitsPerOne_pos
  unfold grid
  split
  · exact Nat.mul_pos (Nat.pow_pos (by decide)) (by omega)
  · exact (by omega : 0 < 4 * Binary64.unitsPerOne)

/-- The step of a grid is a power of ten. -/
theorem grid_step (e : Int) :
    ((grid e).num : ℚ) = 10 ^ e * (4 * Binary64.unitsPerOne) * (grid e).den := by
  unfold grid
  -- The number of units is large, and no step needs it.
  generalize Binary64.unitsPerOne = units
  split
  · rename_i he
    obtain ⟨n, rfl⟩ := Int.eq_ofNat_of_zero_le he
    simp
  · rename_i he
    obtain ⟨n, rfl⟩ : ∃ n : Nat, e = -(n : Int) := ⟨(-e).toNat, by omega⟩
    have hpow : (10 : ℚ) ^ n ≠ 0 := by positivity
    simp only [neg_neg, Int.toNat_natCast, Nat.pow_eq, Nat.cast_mul, Nat.cast_pow, Nat.cast_ofNat,
      zpow_neg, zpow_natCast]
    field_simp

/-- A point of a grid is in the interval where its decimal is. -/
theorem contains_grid_iff (i : Interval) (e : Int) (d : Nat) :
    i.contains (d * (grid e).num) (grid e).den = true ↔ i.Holds (Decimal.quarters ⟨d, e⟩) := by
  have hden : (0 : ℚ) < (grid e).den := by exact_mod_cast grid_den_pos e
  have hpoint : ((d * (grid e).num : Nat) : ℚ) = Decimal.quarters ⟨d, e⟩ * (grid e).den := by
    rw [Nat.cast_mul, grid_step, Decimal.quarters, Decimal.value]
    ring
  have hle : ∀ bound : Nat, bound * (grid e).den ≤ d * (grid e).num ↔
      (bound : ℚ) ≤ Decimal.quarters ⟨d, e⟩ := fun bound => by
    rw [← Nat.cast_le (α := ℚ), hpoint, Nat.cast_mul, mul_le_mul_iff_of_pos_right hden]
  have hge : ∀ bound : Nat, d * (grid e).num ≤ bound * (grid e).den ↔
      Decimal.quarters ⟨d, e⟩ ≤ (bound : ℚ) := fun bound => by
    rw [← Nat.cast_le (α := ℚ), hpoint, Nat.cast_mul, mul_le_mul_iff_of_pos_right hden]
  unfold Interval.contains Interval.Holds
  split
  · simp only [Bool.and_eq_true, decide_eq_true_eq, hle, hge]
  · simp only [Bool.and_eq_true, decide_eq_true_eq, ← not_le, hle, hge]

/-! ### The search -/

/-- What is picked is in the interval. -/
theorem contains_of_pick {tie : Tie} {i : Interval} {g : Grid} {d : Nat}
    (h : pick tie i g = some d) : i.contains (d * g.num) g.den = true := by
  unfold pick at h
  dsimp only at h
  split at h
  · rename_i hlower hupper
    obtain rfl := Option.some.inj h
    split
    · exact hupper
    · exact hlower
  · rename_i hlower _
    obtain rfl := Option.some.inj h
    exact hlower
  · rename_i _ hupper
    obtain rfl := Option.some.inj h
    exact hupper
  · cases h

theorem contains_of_lt {i : Interval} {num den : Nat} (hlower : i.lower * den < num)
    (hupper : num < i.upper * den) : i.contains num den = true := by
  unfold Interval.contains
  split
  · simp [hlower.le, hupper.le]
  · simp [hlower, hupper]

/-- **A point is picked from a grid whose step is smaller than the interval.** -/
theorem isSome_pick (tie : Tie) {i : Interval} {g : Grid} (hlower : i.lower ≤ i.centre)
    (hupper : i.centre < i.upper) (hnum : 0 < g.num) (hden : 0 < g.den)
    (hstep : i.lower * g.den + g.num < i.upper * g.den) : (pick tie i g).isSome := by
  have hbelow : i.centre * g.den / g.num * g.num ≤ i.centre * g.den := Nat.div_mul_le_self _ _
  have habove : i.centre * g.den < (i.centre * g.den / g.num + 1) * g.num :=
    Nat.lt_mul_of_div_lt (Nat.lt_succ_self _) hnum
  have hcentre : i.lower * g.den ≤ i.centre * g.den := Nat.mul_le_mul_right _ hlower
  have hcentre' : i.centre * g.den < i.upper * g.den := Nat.mul_lt_mul_of_pos_right hupper hden
  -- The point below the centre is in the interval, or the step from it leads into the interval.
  have hcontains : i.contains (i.centre * g.den / g.num * g.num) g.den = true ∨
      i.contains ((i.centre * g.den / g.num + 1) * g.num) g.den = true := by
    generalize i.centre * g.den / g.num = d at hbelow habove ⊢
    by_cases hin : i.lower * g.den < d * g.num
    · exact .inl (contains_of_lt hin (hbelow.trans_lt hcentre'))
    · refine .inr (contains_of_lt (hcentre.trans_lt habove) ?_)
      rw [Nat.succ_mul]
      omega
  unfold pick
  dsimp only
  split
  · rfl
  · rfl
  · rfl
  · rename_i hno hno'
    rcases hcontains with hcontains | hcontains
    · rw [hno] at hcontains
      cases hcontains
    · rw [hno'] at hcontains
      cases hcontains

/-- What the search finds is in the interval. -/
theorem holds_of_search {tie : Tie} {i : Interval} {lead : Int} {count fuel : Nat} {d : Decimal}
    (h : search tie i lead count fuel = some d) : i.Holds d.quarters := by
  induction fuel with
  | zero => cases h
  | succ fuel ih =>
    simp only [search] at h
    split at h
    · rename_i n hpick
      obtain rfl := Option.some.inj h
      rw [grid_exponent]
      exact (contains_grid_iff i _ n).mp (contains_of_pick hpick)
    · exact ih h

/-- The search finds something if the last grid has a point in the interval. -/
theorem isSome_search (fuel : Nat) {tie : Tie} {i : Interval} {lead : Int} {count : Nat}
    (h : (pick tie i (grid (lead - (count - 1 : Nat)))).isSome) :
    (search tie i lead count (fuel + 1)).isSome := by
  induction fuel with
  | zero =>
    obtain ⟨n, hn⟩ := Option.isSome_iff_exists.mp h
    simp only [search, Nat.zero_add, hn, Option.isSome_some]
  | succ fuel ih =>
    rw [search]
    split
    · rfl
    · exact ih

/-- Dropping zeros keeps the value. -/
theorem value_trim (fuel : Nat) (d : Decimal) : (trim fuel d).value = d.value := by
  induction fuel generalizing d with
  | zero => rfl
  | succ fuel ih =>
    simp only [trim]
    split
    · rename_i hzero
      have hdigits : (d.digits : ℚ) = (d.digits / 10 : Nat) * 10 := by
        exact_mod_cast (Nat.div_mul_cancel (Nat.dvd_of_mod_eq_zero hzero.2)).symm
      rw [ih, Decimal.value, Decimal.value, hdigits, zpow_add₀ (by norm_num), zpow_one]
      ring
    · rfl

/-! ### Intervals -/

/-- Some multiples of a power of two are apart if the powers are. -/
theorem mul_pow_two_le {m n e f : Nat} (hef : e < f) (h : m ≤ 2 * n) :
    m * Nat.pow 2 e ≤ n * Nat.pow 2 f := by
  obtain ⟨k, rfl⟩ := Nat.exists_eq_add_of_lt hef
  have hpow : Nat.pow 2 (e + k + 1) = Nat.pow 2 e * 2 * Nat.pow 2 k := by
    simp only [Nat.pow_eq]
    ring
  calc m * Nat.pow 2 e ≤ 2 * n * Nat.pow 2 e := Nat.mul_le_mul_right _ h
    _ = n * (Nat.pow 2 e * 2) := by ring
    _ ≤ n * (Nat.pow 2 e * 2) * Nat.pow 2 k := Nat.le_mul_of_pos_right _ (pow_two_pos k)
    _ = n * Nat.pow 2 (e + k + 1) := by rw [hpow]; ring

section

variable {x y : Binary64}

/-- The first significand of a scale has the finer grid below it. -/
def IsFirst (x : Binary64) : Prop :=
  x.significand = 4503599627370496 ∧ x.exponent ≠ 0

instance (x : Binary64) : Decidable (IsFirst x) :=
  inferInstanceAs (Decidable (_ ∧ _))

theorem significand_pos (hx : x.isZero = false) : 0 < x.significand := by
  have hne : x.significand ≠ 0 := by simpa [Binary64.isZero] using hx
  omega

theorem centre_eq (x : Binary64) :
    (interval x).centre = 4 * x.significand * Nat.pow 2 x.exponent :=
  (Nat.mul_assoc _ _ _).symm

theorem upper_eq (x : Binary64) :
    (interval x).upper = (4 * x.significand + 2) * Nat.pow 2 x.exponent := by
  change (interval x).centre + 2 * _ = _
  rw [centre_eq, Nat.add_mul]

theorem lower_of_first (h : IsFirst x) :
    (interval x).lower = 18014398509481983 * Nat.pow 2 x.exponent := by
  change (interval x).centre - (if IsFirst x then _ else _) = _
  rw [if_pos h, centre_eq, h.1]
  omega

theorem lower_of_not_first (h : ¬ IsFirst x) :
    (interval x).lower = (4 * x.significand - 2) * Nat.pow 2 x.exponent := by
  change (interval x).centre - (if IsFirst x then _ else _) = _
  rw [if_neg h, centre_eq, Nat.sub_mul]

theorem lower_lt_centre (hx : x.isZero = false) : (interval x).lower < (interval x).centre := by
  have hulp := pow_two_pos x.exponent
  have hpos := significand_pos hx
  rw [centre_eq]
  by_cases hfirst : IsFirst x
  · rw [lower_of_first hfirst, hfirst.1]
    exact Nat.mul_lt_mul_of_pos_right (by decide) hulp
  · rw [lower_of_not_first hfirst]
    exact Nat.mul_lt_mul_of_pos_right (by omega) hulp

theorem centre_lt_upper (x : Binary64) : (interval x).centre < (interval x).upper := by
  rw [centre_eq, upper_eq]
  exact Nat.mul_lt_mul_of_pos_right (by omega) (pow_two_pos x.exponent)

theorem lower_pos (hx : x.isZero = false) : 0 < (interval x).lower := by
  have hulp := pow_two_pos x.exponent
  have hpos := significand_pos hx
  by_cases hfirst : IsFirst x
  · rw [lower_of_first hfirst]
    exact Nat.mul_pos (by decide) hulp
  · rw [lower_of_not_first hfirst]
    exact Nat.mul_pos (by omega) hulp

/-- **The interval of a number is wider than one part in `10 ^ 16` of the number.** -/
theorem interval_wide (x : Binary64) :
    (interval x).lower * 10 ^ 16 + (interval x).centre < (interval x).upper * 10 ^ 16 := by
  have hulp := pow_two_pos x.exponent
  have hlt := x.significand_lt
  rw [centre_eq, upper_eq]
  by_cases hfirst : IsFirst x
  · rw [lower_of_first hfirst, hfirst.1]
    omega
  · rw [lower_of_not_first hfirst]
    have hwide : (4 * x.significand - 2) * 10 ^ 16 + 4 * x.significand <
        (4 * x.significand + 2) * 10 ^ 16 := by omega
    calc (4 * x.significand - 2) * Nat.pow 2 x.exponent * 10 ^ 16 +
          4 * x.significand * Nat.pow 2 x.exponent
        = ((4 * x.significand - 2) * 10 ^ 16 + 4 * x.significand) * Nat.pow 2 x.exponent := by ring
      _ < (4 * x.significand + 2) * 10 ^ 16 * Nat.pow 2 x.exponent :=
        Nat.mul_lt_mul_of_pos_right hwide hulp
      _ = (4 * x.significand + 2) * Nat.pow 2 x.exponent * 10 ^ 16 := by ring

/-! ### Intervals of different numbers -/

/-- A number of a smaller scale is smaller. -/
theorem magnitude_lt_of_exponent (h : x.exponent < y.exponent) : x.magnitude < y.magnitude := by
  have hfull : 4503599627370496 ≤ y.significand := y.normal.resolve_left (by omega)
  calc x.magnitude < 9007199254740992 * Nat.pow 2 x.exponent :=
        Nat.mul_lt_mul_of_pos_right x.significand_lt (pow_two_pos _)
    _ ≤ 4503599627370496 * Nat.pow 2 y.exponent := mul_pow_two_le h (by decide)
    _ ≤ y.magnitude := Nat.mul_le_mul_right _ hfull

/-- A smaller number has a smaller scale, or a smaller significand in the same scale. -/
theorem scale_cases (h : x.magnitude < y.magnitude) :
    x.exponent < y.exponent ∨ (x.exponent = y.exponent ∧ x.significand < y.significand) := by
  rcases Nat.lt_trichotomy x.exponent y.exponent with hlt | heq | hgt
  · exact .inl hlt
  · refine .inr ⟨heq, ?_⟩
    unfold Binary64.magnitude at h
    rw [heq] at h
    exact Nat.lt_of_mul_lt_mul_right h
  · exact absurd (magnitude_lt_of_exponent hgt) (Nat.lt_asymm h)

/-- **The interval of a smaller number ends where that of a larger one begins**, at the latest, and
before it if both have their ends. -/
theorem upper_le_lower (h : x.magnitude < y.magnitude) :
    (interval x).upper ≤ (interval y).lower ∧
      ((interval x).closed = true → (interval y).closed = true →
        (interval x).upper < (interval y).lower) := by
  have hlt := x.significand_lt
  have hclosed : ∀ z : Binary64, (interval z).closed = true ↔ z.significand % 2 = 0 := fun z => by
    simp [interval]
  have hstrict : (4 * x.significand + 2) * Nat.pow 2 x.exponent <
      (4 * x.significand + 3) * Nat.pow 2 x.exponent :=
    Nat.mul_lt_mul_of_pos_right (by omega) (pow_two_pos _)
  rw [hclosed, hclosed, upper_eq]
  rcases scale_cases h with hscale | ⟨hscale, hsignificand⟩
  · have hne : y.exponent ≠ 0 := by omega
    have hfull : 4503599627370496 ≤ y.significand := y.normal.resolve_left hne
    by_cases hfirst : IsFirst y
    · rw [lower_of_first hfirst]
      refine ⟨mul_pow_two_le hscale (by omega), fun heven _ => hstrict.trans_le ?_⟩
      exact mul_pow_two_le hscale (by omega)
    · have hmore : y.significand ≠ 4503599627370496 := fun heq => hfirst ⟨heq, hne⟩
      rw [lower_of_not_first hfirst]
      have hle := mul_pow_two_le (m := 4 * x.significand + 3) (n := 4 * y.significand - 2) hscale
        (by omega)
      exact ⟨hstrict.le.trans hle, fun _ _ => hstrict.trans_le hle⟩
  · -- In one scale the larger number is not the first.
    have hfirst : ¬ IsFirst y := by
      rintro ⟨heq, hne⟩
      have hfull := x.normal.resolve_left (hscale ▸ hne)
      omega
    rw [lower_of_not_first hfirst, hscale]
    refine ⟨Nat.mul_le_mul_right _ (by omega), fun heven heven' => ?_⟩
    exact Nat.mul_lt_mul_of_pos_right (by omega) (pow_two_pos _)

/-- No real rounds to two different magnitudes. -/
theorem not_holds_of_magnitude_lt (h : x.magnitude < y.magnitude) {q : ℚ}
    (hx : (interval x).Holds q) : ¬ (interval y).Holds q := by
  intro hy
  obtain ⟨hle, hlt⟩ := upper_le_lower h
  have hle' : ((interval x).upper : ℚ) ≤ (interval y).lower := by exact_mod_cast hle
  unfold Interval.Holds at hx hy
  split at hx
  · rename_i hxclosed
    split at hy
    · rename_i hyclosed
      have hlt' : ((interval x).upper : ℚ) < (interval y).lower := by
        exact_mod_cast hlt hxclosed hyclosed
      linarith [hx.2, hy.1]
    · linarith [hx.2, hy.1]
  · split at hy
    · linarith [hx.2, hy.1]
    · linarith [hx.2, hy.1]

/-! ### Seventeen digits -/

/-- A number of some digits is at least the power of ten with as many digits. -/
theorem pow_digitCount_le {n : Nat} (h : 0 < n) : 10 ^ (digitCount n - 1) ≤ n := by
  by_contra hlt
  have hone : digitCount n - 1 ≠ 0 := by
    intro hzero
    rw [hzero] at hlt
    omega
  have hlength : (Nat.toDigits 10 n).length ≤ digitCount n - 1 :=
    (Nat.length_toDigits_le_iff (by decide) (Nat.pos_of_ne_zero hone)).mpr (by omega)
  change digitCount n ≤ digitCount n - 1 at hlength
  omega

/-- Thirty-three binary digits are less than ten decimal ones. -/
theorem pow_two_le_pow_ten {m n k : Nat} (hm : m ≤ 33 * k) (hn : n = 10 * k) :
    Nat.pow 2 m ≤ Nat.pow 10 n := by
  simp only [Nat.pow_eq]
  calc 2 ^ m ≤ 2 ^ (33 * k) := Nat.pow_le_pow_right (by decide) hm
    _ = (2 ^ 33) ^ k := Nat.pow_mul 2 33 k
    _ ≤ (10 ^ 10) ^ k := Nat.pow_le_pow_left (by decide) k
    _ = 10 ^ n := by rw [hn, Nat.pow_mul]

theorem unitsPerOne_le : Binary64.unitsPerOne ≤ Nat.pow 10 330 := by
  unfold Binary64.unitsPerOne
  apply pow_two_le_pow_ten (k := 33) <;> decide

/-- The power of ten at the first digit is at most the number. -/
theorem pow_leadingExponent_le (hx : x.isZero = false) :
    (10 : ℚ) ^ leadingExponent x * Binary64.unitsPerOne ≤ x.magnitude := by
  have hunits := Binary64.unitsPerOne_pos
  have hmagnitude : 0 < x.magnitude := Nat.mul_pos (significand_pos hx) (pow_two_pos _)
  unfold leadingExponent
  generalize hk : x.magnitude * Nat.pow 10 330 / Binary64.unitsPerOne = k
  have hkpos : 0 < k := by
    rw [← hk]
    refine Nat.div_pos ?_ hunits
    exact unitsPerOne_le.trans (Nat.le_mul_of_pos_left _ hmagnitude)
  have hpow : 10 ^ (digitCount k - 1) * Binary64.unitsPerOne ≤ x.magnitude * Nat.pow 10 330 :=
    (Nat.mul_le_mul_right _ (pow_digitCount_le hkpos)).trans (hk ▸ Nat.div_mul_le_self _ _)
  have hcount : 0 < digitCount k := List.length_pos_iff.mpr Nat.toDigits_ne_nil
  have hexponent : (digitCount k : Int) - 331 = (digitCount k - 1 : Nat) - (330 : Nat) := by omega
  have hten : (0 : ℚ) < 10 ^ 330 := pow_pos (by norm_num) _
  rw [hexponent, zpow_sub₀ (by norm_num), zpow_natCast, zpow_natCast, div_mul_eq_mul_div,
    div_le_iff₀ hten]
  have hcast := Nat.cast_le (α := ℚ).mpr hpow
  simpa only [Nat.cast_mul, Nat.cast_pow, Nat.pow_eq, Nat.cast_ofNat] using hcast

/-- **Some decimal with seventeen digits rounds to the number.** -/
theorem isSome_pick_last (tie : Tie) (hx : x.isZero = false) :
    (pick tie (interval x) (grid (leadingExponent x - (17 - 1 : Nat)))).isSome := by
  have hden := grid_den_pos (leadingExponent x - (17 - 1 : Nat))
  refine isSome_pick tie (lower_lt_centre hx).le (centre_lt_upper x) (grid_num_pos _) hden ?_
  have hstep : (grid (leadingExponent x - (17 - 1 : Nat))).num * 10 ^ 16 ≤
      (interval x).centre * (grid (leadingExponent x - (17 - 1 : Nat))).den := by
    have hlead := pow_leadingExponent_le hx
    have hcentre : (interval x).centre = 4 * x.magnitude := rfl
    rw [← Nat.cast_le (α := ℚ), Nat.cast_mul, Nat.cast_mul, grid_step, hcentre]
    generalize (grid (leadingExponent x - (17 - 1 : Nat))).den = den
    generalize leadingExponent x = lead at hlead ⊢
    have hpow : (10 : ℚ) ^ (lead - (17 - 1 : Nat)) * 10 ^ 16 = 10 ^ lead := by
      rw [← zpow_natCast, ← zpow_add₀ (by norm_num)]
      congr 1
      omega
    rw [← hpow] at hlead
    generalize (10 : ℚ) ^ (lead - (17 - 1 : Nat)) = step at hlead ⊢
    push_cast
    linarith [mul_le_mul_of_nonneg_right hlead (by positivity : (0 : ℚ) ≤ 4 * den)]
  have hwide := Nat.mul_lt_mul_of_pos_right (interval_wide x) hden
  generalize (grid (leadingExponent x - (17 - 1 : Nat))).num = num at hstep ⊢
  generalize (grid (leadingExponent x - (17 - 1 : Nat))).den = den at hstep hwide ⊢
  refine Nat.lt_of_mul_lt_mul_right (a := 10 ^ 16) ?_
  calc ((interval x).lower * den + num) * 10 ^ 16
      ≤ ((interval x).lower * 10 ^ 16 + (interval x).centre) * den := by
        rw [Nat.add_mul, Nat.add_mul, Nat.mul_right_comm]
        exact Nat.add_le_add_left hstep _
    _ < (interval x).upper * 10 ^ 16 * den := hwide
    _ = (interval x).upper * den * 10 ^ 16 := Nat.mul_right_comm _ _ _

end

end Shortest

/-! ### Decimals and numbers -/

namespace Binary64

variable {x y : Binary64}

/-- **The shortest decimal rounds to the number.** -/
theorem shortest_holds (tie : Tie) (hx : x.isZero = false) :
    (interval x).Holds (x.shortest tie).quarters := by
  obtain ⟨d, hd⟩ := Option.isSome_iff_exists.mp
    (isSome_search 16 (isSome_pick_last tie hx))
  have hshortest : x.shortest tie = trim 20 d := by
    rw [shortest, if_neg (by simp [hx]), hd]
  rw [hshortest, Decimal.quarters, value_trim]
  exact holds_of_search hd

theorem shortest_of_zero (tie : Tie) (hx : x.isZero = true) : x.shortest tie = ⟨0, 0⟩ := by
  rw [shortest, if_pos hx]

theorem pos_of_holds (hx : x.isZero = false) {q : ℚ} (h : (interval x).Holds q) : 0 < q := by
  have hlower : (0 : ℚ) < (interval x).lower := by exact_mod_cast lower_pos hx
  unfold Interval.Holds at h
  split at h
  · exact hlower.trans_le h.1
  · exact hlower.trans h.1

/-- **A decimal rounds to one magnitude only.** -/
theorem magnitude_eq_of_holds {q : ℚ} (hx : (interval x).Holds q) (hy : (interval y).Holds q) :
    x.magnitude = y.magnitude := by
  rcases Nat.lt_trichotomy x.magnitude y.magnitude with hlt | heq | hgt
  · exact absurd hy (not_holds_of_magnitude_lt hlt hx)
  · exact heq
  · exact absurd hx (not_holds_of_magnitude_lt hgt hy)

/-- The shortest decimal of a number other than zero is not zero. -/
theorem shortest_value_pos (tie : Tie) (hx : x.isZero = false) : 0 < (x.shortest tie).value := by
  have hpos := pos_of_holds hx (shortest_holds tie hx)
  have hunits : (0 : ℚ) < 4 * unitsPerOne := by
    have hone : (0 : ℚ) < unitsPerOne := by exact_mod_cast unitsPerOne_pos
    positivity
  exact pos_of_mul_pos_left hpos hunits.le

/-- **Numbers with the same shortest decimal have the same magnitude.** -/
theorem magnitude_eq_of_shortest {tie : Tie} (h : (x.shortest tie).value = (y.shortest tie).value) :
    x.magnitude = y.magnitude := by
  have hzero : ∀ {z : Binary64}, z.isZero = true → (z.shortest tie).value = 0 ∧ z.magnitude = 0 :=
    fun {z} hz => by
      have hsignificand : z.significand = 0 := by simpa [isZero] using hz
      simp [shortest_of_zero tie hz, Decimal.value, magnitude, hsignificand]
  cases hx : x.isZero with
  | true =>
    cases hy : y.isZero with
    | true => rw [(hzero hx).2, (hzero hy).2]
    | false => exact absurd (h ▸ (hzero hx).1) (shortest_value_pos tie hy).ne'
  | false =>
    cases hy : y.isZero with
    | true => exact absurd (h.trans (hzero hy).1) (shortest_value_pos tie hx).ne'
    | false =>
      have hholds := shortest_holds tie hx
      rw [Decimal.quarters, h] at hholds
      exact magnitude_eq_of_holds hholds (shortest_holds tie hy)

/-- Numbers of one sign and one magnitude are the same. -/
theorem eq_of_magnitude (hsign : x.negative = y.negative) (h : x.magnitude = y.magnitude) :
    x = y := by
  have hexponent : x.exponent = y.exponent := by
    rcases Nat.lt_trichotomy x.exponent y.exponent with hlt | heq | hgt
    · exact absurd h (magnitude_lt_of_exponent hlt).ne
    · exact heq
    · exact absurd h (magnitude_lt_of_exponent hgt).ne'
  have hsignificand : x.significand = y.significand := by
    unfold magnitude at h
    rw [hexponent] at h
    exact Nat.eq_of_mul_eq_mul_right (pow_two_pos _) h
  cases x
  cases y
  simp only at hsign hexponent hsignificand
  subst hsign hexponent hsignificand
  rfl

end Binary64

end DocumentMapper.Number
