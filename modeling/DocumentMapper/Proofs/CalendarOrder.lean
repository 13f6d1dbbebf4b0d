import DocumentMapper.Proofs.CalendarDays
import Mathlib.Order.Monotone.Basic

/-!
# Later days have later dates

Months are numbered through all years. A month begins when the one before it is over, so the first
days of the months grow with their numbers, and the number of a day grows with its date: by year,
then by month, then by day.

## Main results

* `Time.monthStart_succ`: a month begins when the one before it is over;
* `Date.toDayNumber_lt`: a later date has a larger day number;
* `Date.lt_of_before`: an earlier date is the date of an earlier day.
-/

namespace DocumentMapper.Time

/-! ### Years and months -/

/-- How many days there are before a year that begins in March. -/
def yearStart (y : Int) : Int :=
  365 * y + y / 4 - y / 100 + y / 400

/-- A year has a day more if its February, in the next year of the calendar, has. -/
theorem yearStart_succ (y : Int) :
    yearStart (y + 1) = yearStart y + (if isLeap (y + 1) then 366 else 365) := by
  have hleap : isLeap (y + 1) = true ↔
      (y + 1) % 4 = 0 ∧ ((y + 1) % 100 ≠ 0 ∨ (y + 1) % 400 = 0) := by
    simp [isLeap]
  unfold yearStart
  split <;> rename_i h
  · rw [hleap] at h
    omega
  · rw [hleap] at h
    omega

/-- The number of a day by the start of its year and of its month. -/
theorem Date.toDayNumber_eq (d : Date) :
    d.toDayNumber = if d.month ≤ 2
      then yearStart (d.year - 1) + (153 * (d.month + 9) + 2) / 5 + d.day - 719469
      else yearStart d.year + (153 * (d.month - 3) + 2) / 5 + d.day - 719469 := by
  obtain ⟨year, month, day⟩ := d
  unfold Date.toDayNumber yearStart
  dsimp only
  by_cases h : month ≤ 2
  · simp only [h, ↓reduceIte, show ¬ 2 < month by omega]
    omega
  · simp only [h, ↓reduceIte, show 2 < month by omega]
    omega

/-- The first day of a month. Months are numbered from January of the year zero on. -/
def monthStart (k : Int) : Int :=
  Date.toDayNumber ⟨k / 12, (k % 12).toNat + 1, 1⟩

/-- **A month begins when the one before it is over.** -/
theorem monthStart_succ (k : Int) :
    monthStart (k + 1) = monthStart k + daysInMonth (k / 12) ((k % 12).toNat + 1) := by
  obtain ⟨y, hy⟩ : ∃ y, y = k / 12 := ⟨_, rfl⟩
  have hmonth : k % 12 = 0 ∨ k % 12 = 1 ∨ k % 12 = 2 ∨ k % 12 = 3 ∨ k % 12 = 4 ∨ k % 12 = 5 ∨
      k % 12 = 6 ∨ k % 12 = 7 ∨ k % 12 = 8 ∨ k % 12 = 9 ∨ k % 12 = 10 ∨ k % 12 = 11 := by omega
  have hnext : k % 12 ≠ 11 → (k + 1) / 12 = y ∧ (k + 1) % 12 = k % 12 + 1 := by omega
  unfold monthStart
  rw [Date.toDayNumber_eq, Date.toDayNumber_eq, ← hy]
  rcases hmonth with h | h | h | h | h | h | h | h | h | h | h | h
  case inr.inl =>
    have hyear := yearStart_succ (y - 1)
    rw [Int.sub_add_cancel] at hyear
    obtain ⟨hy', hm'⟩ := hnext (by omega)
    rw [hy', hm', h]
    simp only [daysInMonth, Int.reduceToNat, Nat.reduceAdd, Int.reduceAdd, ↓reduceIte,
      Nat.reduceLeDiff]
    by_cases hl : isLeap y = true
    · rw [if_pos hl] at hyear ⊢
      omega
    · rw [if_neg hl] at hyear ⊢
      omega
  case inr.inr.inr.inr.inr.inr.inr.inr.inr.inr.inr =>
    have hy' : (k + 1) / 12 = y + 1 := by omega
    have hm' : (k + 1) % 12 = 0 := by omega
    rw [hy', hm', h]
    simp [daysInMonth]
    omega
  all_goals
    obtain ⟨hy', hm'⟩ := hnext (by omega)
    rw [hy', hm', h]
    simp [daysInMonth]
    omega

theorem daysInMonth_bounds (year : Int) (month : Nat) :
    0 < daysInMonth year month ∧ daysInMonth year month ≤ 31 := by
  unfold daysInMonth
  split
  · split <;> decide
  · split <;> decide

theorem monthStart_le {m n : Int} (h : m ≤ n) : monthStart m ≤ monthStart n := by
  refine monotone_int_of_le_succ (fun k => ?_) h
  have hdays := daysInMonth_bounds (k / 12) ((k % 12).toNat + 1)
  rw [monthStart_succ]
  omega

/-! ### Dates -/

attribute [ext] Date

namespace Date

/-- A date is before another by year, then by month, then by day. -/
def Before (a b : Date) : Prop :=
  a.year < b.year ∨ a.year = b.year ∧ (a.month < b.month ∨ a.month = b.month ∧ a.day < b.day)

/-- The number of the month of a date. -/
def monthNumber (d : Date) : Int :=
  12 * d.year + d.month - 1

theorem isValid_iff {d : Date} : d.isValid = true ↔
    (1 ≤ d.month ∧ d.month ≤ 12) ∧ 1 ≤ d.day ∧ d.day ≤ daysInMonth d.year d.month := by
  simp only [isValid, Bool.and_eq_true, decide_eq_true_eq, and_assoc]

theorem monthNumber_div_mod {d : Date} (h : 1 ≤ d.month ∧ d.month ≤ 12) :
    d.monthNumber / 12 = d.year ∧ (d.monthNumber % 12).toNat + 1 = d.month := by
  unfold monthNumber
  omega

/-- A date counts the days of its month. -/
theorem toDayNumber_eq_monthStart {d : Date} (h : 1 ≤ d.month ∧ d.month ≤ 12) :
    d.toDayNumber = monthStart d.monthNumber + d.day - 1 := by
  obtain ⟨hyear, hmonth⟩ := monthNumber_div_mod h
  rw [monthStart, hyear, hmonth, toDayNumber_eq, toDayNumber_eq]
  dsimp only
  split <;> omega

/-- **A later date has a larger day number.** -/
theorem toDayNumber_lt {a b : Date} (ha : a.isValid = true) (hb : b.isValid = true)
    (h : a.Before b) : a.toDayNumber < b.toDayNumber := by
  rw [isValid_iff] at ha hb
  obtain ⟨hma, ha⟩ := ha
  obtain ⟨hmb, hb⟩ := hb
  have hyear := (monthNumber_div_mod hma).1
  have hmonth := (monthNumber_div_mod hma).2
  rw [toDayNumber_eq_monthStart hma, toDayNumber_eq_monthStart hmb]
  by_cases hsame : a.monthNumber = b.monthNumber
  · have hday : a.day < b.day := by
      unfold Before at h
      unfold monthNumber at hsame
      omega
    rw [hsame]
    omega
  · -- The month of the first date is over when the other month begins.
    have hnext : a.monthNumber + 1 ≤ b.monthNumber := by
      unfold Before at h
      unfold monthNumber at hsame ⊢
      omega
    have hstart := monthStart_le hnext
    rw [monthStart_succ, hyear, hmonth] at hstart
    omega

/-- **An earlier date is the date of an earlier day.** -/
theorem lt_of_before {m n : Int} (h : (Date.ofDayNumber m).Before (Date.ofDayNumber n)) :
    m < n := by
  have hlt := toDayNumber_lt (isValid_ofDayNumber m) (isValid_ofDayNumber n) h
  rwa [toDayNumber_ofDayNumber, toDayNumber_ofDayNumber] at hlt

theorem ofDayNumber_injective : Function.Injective Date.ofDayNumber := by
  intro m n h
  rw [← toDayNumber_ofDayNumber m, h, toDayNumber_ofDayNumber]

end Date

end DocumentMapper.Time
