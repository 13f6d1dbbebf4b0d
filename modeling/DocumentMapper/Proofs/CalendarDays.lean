import DocumentMapper.Time.Calendar

/-!
# The dates of days

The date of a day is computed from the day of its era of 400 years, and the number of a day from its
date. An era has four centuries of 36524 days and one day more, a century has cycles of four years
with 1461 days, of which the last one is a day short, and a cycle has years of 365 days and one day
more. Written as such a sum (`EraDay`), a day shows its year, and it shows which years have a 29th
of February, their last day when they begin in March.

## Main results

* `Date.toDayNumber_ofDayNumber`: the day number of the date of a day is the day;
* `Date.isValid_ofDayNumber`: the date of a day is one that the calendar has.
-/

namespace DocumentMapper.Time

/-- A day of an era by its century, its cycle of four years, its year in the cycle and its day in
the year, which begins in March. Only the last year of a cycle has the day 365, and in the last
cycle of a century only if the century is the last one. -/
structure EraDay (d c q r t : Int) : Prop where
  sum : d = 36524 * c + 1461 * q + 365 * r + t
  century : 0 ≤ c ∧ c ≤ 3
  cycle : 0 ≤ q ∧ q ≤ 24
  year : 0 ≤ r ∧ r ≤ 3
  day : 0 ≤ t ∧ t ≤ 365
  leap : t = 365 → r = 3 ∧ (q ≤ 23 ∨ c = 3)

/-- Every day of an era is such a sum. -/
theorem exists_eraDay {d : Int} (h : 0 ≤ d) (h' : d < 146097) : ∃ c q r t, EraDay d c q r t := by
  obtain ⟨c, hc, hcrest⟩ : ∃ c, (0 ≤ c ∧ c ≤ 3) ∧ 0 ≤ d - 36524 * c ∧
      (d - 36524 * c < 36524 ∨ c = 3 ∧ d - 36524 * c = 36524) := by
    by_cases hlast : d = 146096
    · exact ⟨3, by omega, by omega⟩
    · exact ⟨d / 36524, by omega, by omega⟩
  obtain ⟨q, hq, hqrest⟩ : ∃ q, (0 ≤ q ∧ q ≤ 24) ∧ 0 ≤ d - 36524 * c - 1461 * q ∧
      d - 36524 * c - 1461 * q < 1461 ∧ (q ≤ 23 ∨ c = 3 ∨ d - 36524 * c - 1461 * q < 1460) :=
    ⟨(d - 36524 * c) / 1461, by omega, by omega⟩
  obtain ⟨r, hr, hrrest⟩ : ∃ r, (0 ≤ r ∧ r ≤ 3) ∧ 0 ≤ d - 36524 * c - 1461 * q - 365 * r ∧
      (d - 36524 * c - 1461 * q - 365 * r < 365 ∨
        r = 3 ∧ d - 36524 * c - 1461 * q - 365 * r = 365) := by
    by_cases hlast : d - 36524 * c - 1461 * q = 1460
    · exact ⟨3, by omega, by omega⟩
    · exact ⟨(d - 36524 * c - 1461 * q) / 365, by omega, by omega⟩
  exact ⟨c, q, r, d - 36524 * c - 1461 * q - 365 * r, by omega, hc, hq, hr, by omega, by omega⟩

namespace EraDay

variable {d c q r t : Int}

theorem bounds (h : EraDay d c q r t) : 0 ≤ d ∧ d < 146097 := by
  obtain ⟨hsum, hc, hq, hr, ht, hleap⟩ := h
  omega

/-- The year of the era. -/
theorem yearOfEra (h : EraDay d c q r t) :
    (d - d / 1460 + d / 36524 - d / 146096) / 365 = 100 * c + 4 * q + r := by
  obtain ⟨hsum, hc, hq, hr, ht, hleap⟩ := h
  have hcentury : d / 36524 - d / 146096 = c := by
    by_cases hlast : d = 146096
    · omega
    · have hd : d < 146096 := by omega
      have hrest : d - 36524 * c < 36524 := by omega
      omega
  -- One cycle of four years and a day are 1461 days, so each cycle shifts the division by one.
  obtain ⟨e, he, hcycle⟩ : ∃ e, d / 1460 = 25 * c + q + e ∧
      (e = 0 ∧ 24 * c + q + 365 * r + t < 1460 ∨
        e = 1 ∧ 1460 ≤ 24 * c + q + 365 * r + t) := by
    refine ⟨(24 * c + q + 365 * r + t) / 1460, by omega, by omega⟩
  have hdays : d - d / 1460 + d / 36524 - d / 146096 =
      365 * (100 * c + 4 * q + r) + (t - e) := by omega
  rw [hdays]
  omega

/-- What is left of the day when the years before are taken off. -/
theorem dayOfYear (h : EraDay d c q r t) :
    d - (365 * (100 * c + 4 * q + r) + (100 * c + 4 * q + r) / 4 - (100 * c + 4 * q + r) / 100) =
      t := by
  obtain ⟨hsum, hc, hq, hr, ht, hleap⟩ := h
  have hfours : (100 * c + 4 * q + r) / 4 = 25 * c + q := by
    clear hsum hleap ht
    omega
  have hcenturies : (100 * c + 4 * q + r) / 100 = c := by
    clear hsum hleap ht hfours
    omega
  rw [hfours, hcenturies]
  omega

/-- A year that ends with the 29th of February is a leap year. -/
theorem isLeap (h : EraDay d c q r 365) (e : Int) :
    Time.isLeap (100 * c + 4 * q + r + e * 400 + 1) = true := by
  obtain ⟨rfl, hlast⟩ := h.leap rfl
  have hc := h.century
  have hq := h.cycle
  clear h
  simp only [Time.isLeap, Bool.and_eq_true, Bool.or_eq_true, beq_iff_eq, bne_iff_ne]
  refine ⟨by omega, ?_⟩
  rcases hlast with hq' | rfl
  · left
    omega
  · by_cases hq' : q ≤ 23
    · left
      omega
    · right
      omega

end EraDay

/-! ### Dates -/

namespace Date

/-- The date of a day by the parts of its day in the era. -/
theorem ofDayNumber_eq {n e d c q r t : Int} (hn : n + 719468 = e * 146097 + d)
    (h : EraDay d c q r t) :
    Date.ofDayNumber n =
      { year := 100 * c + 4 * q + r + e * 400 + (if (5 * t + 2) / 153 < 10 then 0 else 1)
        month := (if (5 * t + 2) / 153 < 10 then (5 * t + 2) / 153 + 3
          else (5 * t + 2) / 153 - 9).toNat
        day := (t - (153 * ((5 * t + 2) / 153) + 2) / 5 + 1).toNat } := by
  have hera : (n + 719468) / 146097 = e := by
    have := h.bounds
    omega
  have hday : n + 719468 - e * 146097 = d := by omega
  have hyear := h.yearOfEra
  have hrest := h.dayOfYear
  have hmonth : 0 ≤ (5 * t + 2) / 153 ∧ (5 * t + 2) / 153 ≤ 11 := by
    have := h.day
    omega
  unfold ofDayNumber
  simp only [hera, hday, hyear, hrest]
  clear hrest hyear hday hera hn h
  generalize (5 * t + 2) / 153 = m at hmonth ⊢
  by_cases hm : m < 10
  · simp only [hm, ↓reduceIte, if_neg (show ¬ m + 3 ≤ 2 by omega)]
  · simp only [hm, ↓reduceIte, if_pos (show m - 9 ≤ 2 by omega)]

/-- **The day number of the date of a day is the day.** -/
theorem toDayNumber_ofDayNumber (n : Int) : (Date.ofDayNumber n).toDayNumber = n := by
  have hn : n + 719468 = (n + 719468) / 146097 * 146097 + (n + 719468) % 146097 := by omega
  obtain ⟨c, q, r, t, h⟩ := exists_eraDay (d := (n + 719468) % 146097) (by omega) (by omega)
  rw [ofDayNumber_eq hn h]
  generalize (n + 719468) / 146097 = e at hn
  generalize (n + 719468) % 146097 = d at hn h
  have hrest := h.dayOfYear
  obtain ⟨hsum, hc, hq, hr, ht, -⟩ := h
  have hmonth : 0 ≤ (5 * t + 2) / 153 ∧ (5 * t + 2) / 153 ≤ 11 := by
    clear hsum hn hc hq hr hrest
    omega
  have hday : 0 ≤ t - (153 * ((5 * t + 2) / 153) + 2) / 5 := by
    clear hsum hn hc hq hr hrest
    omega
  have hyears : 0 ≤ 100 * c + 4 * q + r ∧ 100 * c + 4 * q + r < 400 := by
    clear hsum hn hrest
    omega
  unfold toDayNumber
  generalize (5 * t + 2) / 153 = m at hmonth hday ⊢
  generalize 100 * c + 4 * q + r = y at hrest hyears ⊢
  have hera : (y + e * 400) / 400 = e := by omega
  have hyear : y + e * 400 - e * 400 = y := by omega
  by_cases hm : m < 10
  · simp only [hm, ↓reduceIte]
    rw [if_neg (by omega), if_pos (by omega)]
    simp only [Int.add_zero, hera, hyear]
    rw [Int.toNat_of_nonneg (by omega), Int.toNat_of_nonneg (by omega),
      show m + 3 - 3 = m by omega]
    clear hera hyear hyears hm hmonth ht hr hq hc
    omega
  · simp only [hm, ↓reduceIte]
    rw [if_pos (by omega), if_neg (by omega)]
    simp only [Int.add_sub_cancel, hera, hyear]
    rw [Int.toNat_of_nonneg (by omega), Int.toNat_of_nonneg (by omega),
      show m - 9 + 9 = m by omega]
    clear hera hyear hyears hm hmonth ht hr hq hc
    omega

/-- **The date of a day is one that the calendar has.** -/
theorem isValid_ofDayNumber (n : Int) : (Date.ofDayNumber n).isValid = true := by
  have hn : n + 719468 = (n + 719468) / 146097 * 146097 + (n + 719468) % 146097 := by omega
  obtain ⟨c, q, r, t, h⟩ := exists_eraDay (d := (n + 719468) % 146097) (by omega) (by omega)
  rw [ofDayNumber_eq hn h]
  generalize (n + 719468) / 146097 = e at hn
  have hleap : t = 365 → Time.isLeap (100 * c + 4 * q + r + e * 400 + 1) = true := by
    rintro rfl
    exact h.isLeap e
  have ht := h.day
  clear hn h
  simp only [isValid, daysInMonth, Bool.and_eq_true, decide_eq_true_eq]
  obtain ⟨m, hm⟩ : ∃ m, m = (5 * t + 2) / 153 := ⟨_, rfl⟩
  rw [← hm]
  have hbounds : 153 * m ≤ 5 * t + 2 ∧ 5 * t + 2 < 153 * m + 153 := by omega
  have hcases : m = 0 ∨ m = 1 ∨ m = 2 ∨ m = 3 ∨ m = 4 ∨ m = 5 ∨ m = 6 ∨ m = 7 ∨ m = 8 ∨ m = 9 ∨
      m = 10 ∨ m = 11 := by omega
  clear hm
  rcases hcases with rfl | rfl | rfl | rfl | rfl | rfl | rfl | rfl | rfl | rfl | rfl | rfl
  case' inr.inr.inr.inr.inr.inr.inr.inr.inr.inr.inr =>
    by_cases hlast : t = 365
    · simp [hleap hlast, hlast]
    · simp only [Int.reduceLT, ↓reduceIte, Int.reduceSub, Int.reduceToNat, Nat.reduceLeDiff,
        and_self, Int.reduceMul, Int.reduceAdd, Int.reduceDiv, true_and, Int.toNat_le]
      split <;> omega
  all_goals
    simp
    omega

end Date

end DocumentMapper.Time
