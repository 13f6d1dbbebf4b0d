import DocumentMapper.Proofs.CalendarDays
import DocumentMapper.Time.Instant

/-!
# Reading the texts of instants

The text of an instant has fixed places: four digits of the year, two of everything else down to the
second, three of the fraction. Each part is read back from its place, and the parts make up the
instant.

The text does not show every instant. It has milliseconds, a year outside four digits gets a sign,
which reading does not take, and second sixty is a leap second only after second 59.

## Main results

* `Instant.read?_text`: an instant that its text shows is read back from it.
-/

namespace DocumentMapper.Time.Instant

open Text

/-! ### Digits -/

theorem ofDigits_cons_zero (ds : List Char) : ofDigits 0 ('0' :: ds) = ofDigits 0 ds :=
  rfl

theorem ofDigits_replicate_zero (k : Nat) (ds : List Char) :
    ofDigits 0 (List.replicate k '0' ++ ds) = ofDigits 0 ds := by
  induction k with
  | zero => rfl
  | succ k ih => rw [List.replicate_succ, List.cons_append, ofDigits_cons_zero, ih]

theorem ofDigits_padded (width n : Nat) : ofDigits 0 (padded width n) = n := by
  rw [padded, ofDigits_replicate_zero]
  exact Nat.ofDigitChars_ten_toDigits

theorem isDigit_of_mem_padded {width n : Nat} {c : Char} (h : c ∈ padded width n) :
    c.isDigit = true := by
  rcases List.mem_append.mp h with hzero | hdigit
  · rw [List.eq_of_mem_replicate hzero]
    rfl
  · exact Nat.isDigit_of_mem_toDigits (by decide) (by decide) hdigit

/-- A number that has a place of some width. -/
def Fits (width n : Nat) : Prop :=
  (Nat.toDigits 10 n).length ≤ width

theorem fits_two {n : Nat} (h : n < 100) : Fits 2 n :=
  (Nat.length_toDigits_le_iff (by decide) (by decide)).mpr h

theorem fits_three {n : Nat} (h : n < 1000) : Fits 3 n :=
  (Nat.length_toDigits_le_iff (by decide) (by decide)).mpr h

theorem fits_four {n : Nat} (h : n < 10000) : Fits 4 n :=
  (Nat.length_toDigits_le_iff (by decide) (by decide)).mpr h

theorem length_padded {width n : Nat} (h : Fits width n) : (padded width n).length = width := by
  rw [padded, List.length_append, List.length_replicate]
  exact Nat.sub_add_cancel h

/-- A number is read from its place. -/
theorem readFixed_padded {width n : Nat} (h : Fits width n) (rest : List Char) :
    readFixed width (padded width n ++ rest) = some (n, rest) := by
  have hlength := length_padded h
  have htake : (padded width n ++ rest).take width = padded width n := List.take_left' hlength
  have hdrop : (padded width n ++ rest).drop width = rest := List.drop_left' hlength
  have hall : (padded width n).all Char.isDigit = true :=
    List.all_eq_true.mpr fun c hc => isDigit_of_mem_padded hc
  simp only [readFixed, htake, hdrop, hlength, hall, and_self, ↓reduceIte, ofDigits_padded]

/-- An instant begins with a digit. -/
theorem read?_of_not_digit {text : String} {c : Char} {cs : List Char}
    (htext : text.toList = c :: cs) (hc : c.isDigit = false) : read? text = none := by
  have hyear : readFixed 4 (c :: cs) = none := by
    simp only [readFixed, List.take_succ_cons, List.all_cons, hc, Bool.false_and,
      Bool.false_eq_true, and_false, if_false]
  rw [read?, htext, hyear]
  rfl

/-- The milliseconds of the fraction are read as nanoseconds. -/
theorem readNanos_padded {n : Nat} (h : n < 1000) :
    readNanos ('.' :: (padded 3 n ++ ['Z'])) = some (n * 1000000, ['Z']) := by
  have hlength : (padded 3 n).length = 3 := length_padded (fits_three h)
  have hdigits : ∀ c ∈ padded 3 n, c.isDigit = true := fun c hc => isDigit_of_mem_padded hc
  have htake : (padded 3 n ++ ['Z']).takeWhile Char.isDigit = padded 3 n := by
    rw [List.takeWhile_append_of_pos hdigits]
    exact List.append_nil _
  have hdrop : (padded 3 n ++ ['Z']).dropWhile Char.isDigit = ['Z'] := by
    rw [List.dropWhile_append_of_pos hdigits]
    rfl
  have hkept : (padded 3 n).take 9 = padded 3 n := List.take_of_length_le (by omega)
  have hne : (padded 3 n).isEmpty = false := by
    rw [List.isEmpty_eq_false_iff_exists_mem]
    exact ⟨_, List.getElem_mem (by omega : 0 < _)⟩
  simp only [readNanos, htake, hdrop, hkept, hne, ofDigits_padded, hlength, Bool.false_eq_true,
    ↓reduceIte, Nat.reduceSub, Nat.pow_eq, Nat.reducePow]

theorem expectChar_self (c : Char) (rest : List Char) : expectChar c (c :: rest) = some rest :=
  if_pos rfl

theorem expectTimeMark_T (rest : List Char) : expectTimeMark ('T' :: rest) = some rest :=
  rfl

theorem readOffset_Z : readOffset ['Z'] = some (0, []) :=
  rfl

/-! ### Instants -/

/-- The month and the day of a date have two digits. -/
theorem month_day_lt {date : Date} (h : date.isValid = true) :
    date.month < 100 ∧ date.day < 100 := by
  have hdays : daysInMonth date.year date.month ≤ 31 := by
    unfold daysInMonth
    split
    · split <;> decide
    · split <;> decide
  simp only [Date.isValid, Bool.and_eq_true, decide_eq_true_eq] at h
  omega

/-- An instant that its text shows: in whole milliseconds, in a year of four digits, and with a leap
second only at the end of a minute. -/
structure HasText (i : Instant) : Prop where
  millis : i.nanos % 1000000 = 0
  year : 0 ≤ (Date.ofDayNumber (i.seconds / 86400)).year ∧
    (Date.ofDayNumber (i.seconds / 86400)).year ≤ 9999
  leap : i.nanos < 1000000000 ∨ i.nanos < 2000000000 ∧ i.seconds % 60 = 59

/-- The instant of a time of day. The second of a leap second is sixty. -/
theorem ofParts?_eq {date : Date} (hdate : date.isValid = true) {ofDay nanos : Nat}
    (hday : ofDay < 86400)
    (hnanos : nanos < 1000000000 ∨ nanos < 2000000000 ∧ ofDay % 60 = 59) :
    ofParts? date (ofDay / 3600) (ofDay / 60 % 60)
        (ofDay % 60 + (if 1000000000 ≤ nanos then 1 else 0))
        (if 1000000000 ≤ nanos then nanos - 1000000000 else nanos) 0 =
      some ⟨date.toDayNumber * 86400 + ofDay, nanos⟩ := by
  by_cases hleap : 1000000000 ≤ nanos
  · have hlast : ofDay % 60 = 59 := by omega
    have hsecond : ofDay / 3600 * 3600 + ofDay / 60 % 60 * 60 + 59 = ofDay := by omega
    have hhour : ofDay / 3600 < 24 := by omega
    have hminute : ofDay / 60 % 60 < 60 := by omega
    have hrest : nanos - 1000000000 + 1000000000 = nanos := by omega
    simp only [ofParts?, hdate, hleap, hlast, hhour, hminute, ↓reduceIte, Nat.reduceAdd,
      Nat.le_refl, and_self, hsecond, hrest, Int.sub_zero]
  · have hsecond : ofDay / 3600 * 3600 + ofDay / 60 % 60 * 60 + ofDay % 60 = ofDay := by omega
    have hhour : ofDay / 3600 < 24 := by omega
    have hminute : ofDay / 60 % 60 < 60 := by omega
    have hbound : ofDay % 60 ≤ 60 := by omega
    have hne : ofDay % 60 ≠ 60 := by omega
    simp only [ofParts?, hdate, hleap, hhour, hminute, hbound, hne, ↓reduceIte, Nat.add_zero,
      and_self, hsecond, Int.sub_zero]

/-- The parts of a date and a time of day are read from their places. -/
theorem read?_parts {year month day hour minute second millis : Nat} (hyear : year < 10000)
    (hmonth : month < 100) (hday : day < 100) (hhour : hour < 100) (hminute : minute < 100)
    (hsecond : second < 100) (hmillis : millis < 1000) :
    read? (String.ofList
        (padded 4 year ++ '-' :: padded 2 month ++ '-' :: padded 2 day ++ 'T' :: padded 2 hour
          ++ ':' :: padded 2 minute ++ ':' :: padded 2 second ++ '.' :: padded 3 millis ++ ['Z'])) =
      ofParts? ⟨year, month, day⟩ hour minute second (millis * 1000000) 0 := by
  have hnext : ∀ {α β : Type} {x : Option α} {a : α} {f : α → Option β}, x = some a →
      x >>= f = f a := by
    rintro α β x a f rfl
    rfl
  rw [read?, String.toList_ofList]
  simp only [List.append_assoc, List.cons_append]
  refine (hnext (readFixed_padded (fits_four hyear) _)).trans ?_
  refine (hnext (expectChar_self '-' _)).trans ?_
  refine (hnext (readFixed_padded (fits_two hmonth) _)).trans ?_
  refine (hnext (expectChar_self '-' _)).trans ?_
  refine (hnext (readFixed_padded (fits_two hday) _)).trans ?_
  refine (hnext (expectTimeMark_T _)).trans ?_
  refine (hnext (readFixed_padded (fits_two hhour) _)).trans ?_
  refine (hnext (expectChar_self ':' _)).trans ?_
  refine (hnext (readFixed_padded (fits_two hminute) _)).trans ?_
  refine (hnext (expectChar_self ':' _)).trans ?_
  refine (hnext (readFixed_padded (fits_two hsecond) _)).trans ?_
  refine (hnext (readNanos_padded hmillis)).trans ?_
  refine (hnext readOffset_Z).trans ?_
  rfl

/-- **An instant that its text shows is read back from it.** -/
theorem read?_text {i : Instant} (h : i.HasText) : read? i.text = some i := by
  obtain ⟨seconds, nanos⟩ := i
  obtain ⟨hmillis, hyear, hleap⟩ := h
  dsimp only at hmillis hyear hleap
  have hvalid := Date.isValid_ofDayNumber (seconds / 86400)
  have hnumber := Date.toDayNumber_ofDayNumber (seconds / 86400)
  unfold text
  dsimp only
  generalize Date.ofDayNumber (seconds / 86400) = date at hyear hvalid hnumber ⊢
  obtain ⟨ofDay, hofDay⟩ : ∃ ofDay, ofDay = (seconds % 86400).toNat := ⟨_, rfl⟩
  have hday : ofDay < 86400 := by omega
  rw [← hofDay]
  have hmonthday : date.month < 100 ∧ date.day < 100 := month_day_lt hvalid
  have hyearText : yearText date.year = padded 4 date.year.toNat := if_pos hyear
  have hyearNat : date.year.toNat < 10000 := by omega
  have hsecond : ofDay % 60 + (if 1000000000 ≤ nanos then 1 else 0) < 100 := by
    split <;> omega
  have hfraction : (if 1000000000 ≤ nanos then nanos - 1000000000 else nanos) / 1000000 < 1000 := by
    split <;> omega
  have hwhole : (if 1000000000 ≤ nanos then nanos - 1000000000 else nanos) / 1000000 * 1000000 =
      if 1000000000 ≤ nanos then nanos - 1000000000 else nanos := by
    split <;> omega
  have hnanos : nanos < 1000000000 ∨ nanos < 2000000000 ∧ ofDay % 60 = 59 := by omega
  have hparts := ofParts?_eq hvalid hday hnanos
  have hseconds : seconds / 86400 * 86400 + (ofDay : Int) = seconds := by omega
  rw [hnumber, hseconds] at hparts
  have hdate : (⟨date.year.toNat, date.month, date.day⟩ : Date) = date := by
    rw [Int.toNat_of_nonneg hyear.1]
  have hhour : ofDay / 3600 < 100 := by omega
  have hminute : ofDay / 60 % 60 < 100 := by omega
  rw [hyearText, read?_parts hyearNat hmonthday.1 hmonthday.2 hhour hminute hsecond hfraction,
    hwhole, hdate]
  exact hparts

end DocumentMapper.Time.Instant
