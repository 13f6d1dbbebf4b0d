import DocumentMapper.Json.Basic
import DocumentMapper.Proofs.CalendarOrder
import DocumentMapper.Proofs.InstantTexts
import DocumentMapper.Storage.Decoding
import Mathlib.Data.String.Basic
import Mathlib.Order.Lex
import Mathlib.Tactic.Ring

/-!
# The order of the texts of instants

Filters and sorting compare stored instants as texts. All places of a text but the year have a fixed
width, so texts of one year are in the order of the numbers in their places, and those in the order
of the instants. A year of four digits has its place, too. But a text that is read may denote an
instant of the year before or after them, when its offset is taken off: these years are written with
a sign, so that the text is not read again. A minus sign is before the digits, as it should be; the
plus sign is before them and before the minus sign, so that the year 10000 comes first.

## Main results

* `Instant.denoted_of_read?`: the years and the leap seconds of instants that are read;
* `Instant.before_of_text_lt`: the earlier text is the text of the earlier instant;
* `Instant.read?_text_of_denoted`: when the text of an instant is read, and as what;
* `Instant.texts_faithful_in_order`: both for two texts that are read;
* `Scalar.decodeLeaf_text`: what is decoded from the text of an instant.
-/

namespace DocumentMapper.Time.Instant

open Text

/-! ### Digits in order -/

theorem digitValue_lt_ten {c : Char} (h : c.isDigit = true) : digitValue c < 10 := by
  have hbounds : 48 ≤ c.toNat ∧ c.toNat ≤ 57 := by
    simpa [Char.isDigit, UInt32.le_iff_toNat_le] using h
  unfold digitValue
  omega

theorem digitValue_lt {c d : Char} (hc : c.isDigit = true) (h : c < d) :
    digitValue c < digitValue d := by
  have hbounds : 48 ≤ c.toNat ∧ c.toNat ≤ 57 := by
    simpa [Char.isDigit, UInt32.le_iff_toNat_le] using hc
  have hlt : c.toNat < d.toNat := h
  unfold digitValue
  omega

theorem ofDigits_cons (acc : Nat) (c : Char) (ds : List Char) :
    ofDigits acc (c :: ds) = ofDigits (10 * acc + digitValue c) ds := by
  simp only [ofDigits, List.foldl_cons]

/-- Digits behind a number fill up the powers of ten that follow it. -/
theorem ofDigits_bounds {ds : List Char} (h : ∀ c ∈ ds, c.isDigit = true) (acc : Nat) :
    acc * 10 ^ ds.length ≤ ofDigits acc ds ∧ ofDigits acc ds < (acc + 1) * 10 ^ ds.length := by
  induction ds generalizing acc with
  | nil =>
    change acc * 10 ^ 0 ≤ acc ∧ acc < (acc + 1) * 10 ^ 0
    omega
  | cons d ds ih =>
    obtain ⟨hd, hds⟩ := List.forall_mem_cons.mp h
    have hdigit := digitValue_lt_ten hd
    obtain ⟨hlow, hhigh⟩ := ih hds (10 * acc + digitValue d)
    rw [ofDigits_cons, List.length_cons, Nat.pow_succ]
    generalize 10 ^ ds.length = p at hlow hhigh ⊢
    constructor
    · calc acc * (p * 10) = 10 * acc * p := by ring
        _ ≤ (10 * acc + digitValue d) * p := Nat.mul_le_mul_right p (by omega)
        _ ≤ ofDigits (10 * acc + digitValue d) ds := hlow
    · calc ofDigits (10 * acc + digitValue d) ds < (10 * acc + digitValue d + 1) * p := hhigh
        _ ≤ 10 * (acc + 1) * p := Nat.mul_le_mul_right p (by omega)
        _ = (acc + 1) * (p * 10) := by ring

/-- Texts that begin with as many digits are in the order of the numbers, then of the rest. -/
theorem digits_append_lt {ds es xs ys : List Char} (hlength : ds.length = es.length)
    (hds : ∀ c ∈ ds, c.isDigit = true) (hes : ∀ c ∈ es, c.isDigit = true)
    (h : ds ++ xs < es ++ ys) (acc : Nat) :
    ofDigits acc ds < ofDigits acc es ∨ ds = es ∧ xs < ys := by
  induction ds generalizing es acc with
  | nil =>
    cases es with
    | nil => exact .inr ⟨rfl, h⟩
    | cons e es => cases hlength
  | cons d ds ih =>
    cases es with
    | nil => cases hlength
    | cons e es =>
      obtain ⟨hd, hds'⟩ := List.forall_mem_cons.mp hds
      obtain ⟨-, hes'⟩ := List.forall_mem_cons.mp hes
      have hrests : ds.length = es.length := by simpa using hlength
      rw [ofDigits_cons, ofDigits_cons]
      rcases List.cons_lt_cons_iff.mp h with hlt | ⟨rfl, hrest⟩
      · have hdigit := digitValue_lt hd hlt
        left
        calc ofDigits (10 * acc + digitValue d) ds
            < (10 * acc + digitValue d + 1) * 10 ^ ds.length := (ofDigits_bounds hds' _).2
          _ ≤ (10 * acc + digitValue e) * 10 ^ es.length := by
            rw [hrests]
            exact Nat.mul_le_mul_right _ (by omega)
          _ ≤ ofDigits (10 * acc + digitValue e) es := (ofDigits_bounds hes' _).1
      · rcases ih hrests hds' hes' hrest (10 * acc + digitValue d) with hlt | ⟨rfl, hlt⟩
        · exact .inl hlt
        · exact .inr ⟨rfl, hlt⟩

/-- Numbers in places of one width are in order. -/
theorem padded_append_lt {width m n : Nat} {xs ys : List Char} (hm : Fits width m)
    (hn : Fits width n) (h : padded width m ++ xs < padded width n ++ ys) :
    m < n ∨ m = n ∧ xs < ys := by
  have hlength : (padded width m).length = (padded width n).length := by
    rw [length_padded hm, length_padded hn]
  rcases digits_append_lt hlength (fun c hc => isDigit_of_mem_padded hc)
      (fun c hc => isDigit_of_mem_padded hc) h 0 with hlt | ⟨heq, hlt⟩
  · rw [ofDigits_padded, ofDigits_padded] at hlt
    exact .inl hlt
  · have hnumber := congrArg (ofDigits 0) heq
    rw [ofDigits_padded, ofDigits_padded] at hnumber
    exact .inr ⟨hnumber, hlt⟩

/-! ### What is read -/

theorem readFixed_lt {width n : Nat} {cs rest : List Char}
    (h : readFixed width cs = some (n, rest)) : n < 10 ^ width := by
  unfold readFixed at h
  dsimp only at h
  split at h
  · rename_i hdigits
    obtain ⟨hlength, hall⟩ := hdigits
    cases h
    have hbounds := ofDigits_bounds (List.all_eq_true.mp hall) 0
    rw [hlength] at hbounds
    omega
  · cases h

theorem readNanos_lt {n : Nat} {cs rest : List Char} (h : readNanos cs = some (n, rest)) :
    n < 1000000000 := by
  unfold readNanos at h
  split at h
  · rename_i digits
    dsimp only at h
    split at h
    · cases h
    · cases h
      have hdigits : ∀ c ∈ (digits.takeWhile Char.isDigit).take 9, c.isDigit = true :=
        fun c hc => List.all_eq_true.mp List.all_takeWhile c (List.mem_of_mem_take hc)
      have hlength : ((digits.takeWhile Char.isDigit).take 9).length ≤ 9 :=
        List.length_take_le 9 _
      have hbound := (ofDigits_bounds hdigits 0).2
      generalize (digits.takeWhile Char.isDigit).take 9 = kept at hlength hbound ⊢
      calc ofDigits 0 kept * Nat.pow 10 (9 - kept.length)
          < 10 ^ kept.length * 10 ^ (9 - kept.length) :=
            Nat.mul_lt_mul_of_pos_right (by omega) (Nat.pow_pos (by decide))
        _ = 10 ^ 9 := by rw [← Nat.pow_add, Nat.add_sub_cancel' hlength]
  · cases h
    decide

/-- An offset is a number of minutes, below a day. -/
def IsOffset (offset : Int) : Prop :=
  offset % 60 = 0 ∧ -86400 < offset ∧ offset < 86400

theorem isOffset_zero : IsOffset 0 := by
  unfold IsOffset
  decide

theorem IsOffset.neg {offset : Int} (h : IsOffset offset) : IsOffset (-offset) := by
  unfold IsOffset at h ⊢
  omega

theorem isOffset_of_readOffsetAmount {cs rest : List Char} {n : Int}
    (h : readOffsetAmount cs = some (n, rest)) : IsOffset n := by
  simp only [readOffsetAmount, Option.bind_eq_bind, Option.bind_eq_some_iff] at h
  obtain ⟨⟨hours, _⟩, -, _, -, ⟨minutes, _⟩, -, h⟩ := h
  split at h
  · cases h
    unfold IsOffset
    omega
  · cases h

theorem isOffset_of_readOffset {cs rest : List Char} {n : Int}
    (h : readOffset cs = some (n, rest)) : IsOffset n := by
  have hwest : ∀ {cs : List Char}, (readOffsetAmount cs).map (fun p => (-p.1, p.2)) =
      some (n, rest) → IsOffset n := by
    intro cs h
    obtain ⟨⟨m, _⟩, hm, hn⟩ := Option.map_eq_some_iff.mp h
    obtain ⟨rfl, -⟩ := Prod.mk.inj hn
    exact (isOffset_of_readOffsetAmount hm).neg
  unfold readOffset at h
  split at h
  · cases h
    exact isOffset_zero
  · cases h
    exact isOffset_zero
  · exact isOffset_of_readOffsetAmount h
  · exact hwest h
  · exact hwest h
  · cases h

/-- A text that is read has a date in a year of four digits, a time of day and an offset. -/
theorem exists_parts_of_read? {s : String} {i : Instant} (h : read? s = some i) :
    ∃ date hour minute second nanos offset, (0 ≤ date.year ∧ date.year ≤ 9999) ∧
      nanos < 1000000000 ∧ IsOffset offset ∧
      ofParts? date hour minute second nanos offset = some i := by
  -- One rewrite of all the steps is slow, so they are taken off one by one.
  have hstep : ∀ {α : Type} {o : Option α} {f : α → Option Instant}, o >>= f = some i →
      ∃ a, o = some a ∧ f a = some i := Option.bind_eq_some_iff.mp
  obtain ⟨⟨year, _⟩, hyear, h⟩ := hstep h
  obtain ⟨_, -, h⟩ := hstep h
  obtain ⟨⟨month, _⟩, -, h⟩ := hstep h
  obtain ⟨_, -, h⟩ := hstep h
  obtain ⟨⟨day, _⟩, -, h⟩ := hstep h
  obtain ⟨_, -, h⟩ := hstep h
  obtain ⟨⟨hour, _⟩, -, h⟩ := hstep h
  obtain ⟨_, -, h⟩ := hstep h
  obtain ⟨⟨minute, _⟩, -, h⟩ := hstep h
  obtain ⟨_, -, h⟩ := hstep h
  obtain ⟨⟨second, _⟩, -, h⟩ := hstep h
  obtain ⟨⟨nanos, _⟩, hnanos, h⟩ := hstep h
  obtain ⟨⟨offset, _⟩, hoffset, h⟩ := hstep h
  dsimp only at h
  have hyear := readFixed_lt hyear
  split at h
  · exact ⟨⟨year, month, day⟩, hour, minute, second, nanos, offset, ⟨Int.natCast_nonneg year,
      by dsimp only; omega⟩, readNanos_lt hnanos, isOffset_of_readOffset hoffset, h⟩
  · cases h

/-- The year of an instant in universal time. -/
def year (i : Instant) : Int :=
  (Date.ofDayNumber (i.seconds / 86400)).year

/-- What an instant that a text denotes is like: its offset takes it out of the years of four digits
by one year at most, and a leap second is at the end of a minute. -/
structure Denoted (i : Instant) : Prop where
  year : -1 ≤ i.year ∧ i.year ≤ 10000
  leap : i.nanos < 1000000000 ∨ i.nanos < 2000000000 ∧ i.seconds % 60 = 59

/-- A date in a year of four digits is not before the first day of the year zero, and not after the
last day of the year 9999. -/
theorem toDayNumber_bounds {date : Date} (hvalid : date.isValid = true)
    (hyear : 0 ≤ date.year ∧ date.year ≤ 9999) :
    Date.toDayNumber ⟨0, 1, 1⟩ ≤ date.toDayNumber ∧
      date.toDayNumber ≤ Date.toDayNumber ⟨9999, 12, 31⟩ := by
  obtain ⟨year, month, day⟩ := date
  obtain ⟨hmonth, hday⟩ := Date.isValid_iff.mp hvalid
  have hdays := daysInMonth_bounds year month
  dsimp only at hyear hmonth hday hdays
  constructor
  · by_cases h : year = 0 ∧ month = 1 ∧ day = 1
    · obtain ⟨rfl, rfl, rfl⟩ := h
      exact Int.le_refl _
    · refine Int.le_of_lt (Date.toDayNumber_lt (by decide) hvalid ?_)
      unfold Date.Before
      dsimp only
      omega
  · by_cases h : year = 9999 ∧ month = 12 ∧ day = 31
    · obtain ⟨rfl, rfl, rfl⟩ := h
      exact Int.le_refl _
    · refine Int.le_of_lt (Date.toDayNumber_lt hvalid (by decide) ?_)
      unfold Date.Before
      dsimp only
      omega

theorem year_bounds {n : Int} (h : Date.toDayNumber ⟨0, 1, 1⟩ - 1 ≤ n)
    (h' : n ≤ Date.toDayNumber ⟨9999, 12, 31⟩ + 1) :
    -1 ≤ (Date.ofDayNumber n).year ∧ (Date.ofDayNumber n).year ≤ 10000 := by
  have hfirst : (Date.ofDayNumber (Date.toDayNumber ⟨0, 1, 1⟩ - 1)).year = -1 := by decide
  have hlast : (Date.ofDayNumber (Date.toDayNumber ⟨9999, 12, 31⟩ + 1)).year = 10000 := by decide
  constructor
  · by_contra hearly
    have hlt := Date.lt_of_before (.inl (by omega : (Date.ofDayNumber n).year <
      (Date.ofDayNumber (Date.toDayNumber ⟨0, 1, 1⟩ - 1)).year))
    omega
  · by_contra hlate
    have hlt := Date.lt_of_before (.inl (by omega :
      (Date.ofDayNumber (Date.toDayNumber ⟨9999, 12, 31⟩ + 1)).year < (Date.ofDayNumber n).year))
    omega

theorem denoted_of_read? {s : String} {i : Instant} (h : read? s = some i) : i.Denoted := by
  obtain ⟨date, hour, minute, second, nanos, offset, hyear, hnanos, hoffset, h⟩ :=
    exists_parts_of_read? h
  unfold ofParts? at h
  split at h
  · rename_i htime
    obtain ⟨hvalid, hhour, hminute, hsecond⟩ := htime
    obtain ⟨hlow, hhigh⟩ := toDayNumber_bounds hvalid hyear
    unfold IsOffset at hoffset
    cases h
    constructor
    · refine year_bounds ?_ ?_
      · dsimp only
        split <;> omega
      · dsimp only
        split <;> omega
    · dsimp only
      split <;> omega
  · cases h

/-! ### The places of a text -/

/-- An instant is before another by the second, then by the nanosecond, which counts leap seconds
in. -/
def Before (i j : Instant) : Prop :=
  i.seconds < j.seconds ∨ i.seconds = j.seconds ∧ i.nanos < j.nanos

/-- The instant in whole milliseconds. -/
def truncated (i : Instant) : Instant :=
  ⟨i.seconds, i.nanos / 1000000 * 1000000⟩

/-- The places of a text behind the year: the mark in front and the width. -/
def marks : List (Char × Nat) :=
  [('-', 2), ('-', 2), ('T', 2), (':', 2), (':', 2), ('.', 3)]

/-- Numbers in places, and the mark of universal time. -/
def placesText : List (Char × Nat) → List Nat → List Char
  | (mark, width) :: marks, n :: ns => mark :: (padded width n ++ placesText marks ns)
  | _, _ => ['Z']

/-- The numbers of the places: month, day, hour, minute, second and millisecond. -/
def places (i : Instant) : List Nat :=
  let date := Date.ofDayNumber (i.seconds / 86400)
  let ofDay := (i.seconds % 86400).toNat
  let leap := 1000000000 ≤ i.nanos
  [date.month, date.day, ofDay / 3600, ofDay / 60 % 60, ofDay % 60 + (if leap then 1 else 0),
    (if leap then i.nanos - 1000000000 else i.nanos) / 1000000]

theorem text_eq (i : Instant) :
    i.text = String.ofList (yearText i.year ++ placesText marks i.places) := by
  simp only [text, year, places, marks, placesText, List.append_assoc, List.cons_append]

theorem places_fit {i : Instant} (h : i.Denoted) :
    List.Forall₂ (fun mark n => Fits mark.2 n) marks i.places := by
  have hdate := month_day_lt (Date.isValid_ofDayNumber (i.seconds / 86400))
  have hleap := h.leap
  refine .cons (fits_two hdate.1) (.cons (fits_two hdate.2) (.cons (fits_two ?_)
    (.cons (fits_two ?_) (.cons (fits_two ?_) (.cons (fits_three ?_) .nil)))))
  · omega
  · omega
  · split <;> omega
  · split <;> omega

/-- Texts of places are in the order of the numbers. -/
theorem placesText_lt {ps : List (Char × Nat)} {ms ns : List Nat}
    (hms : List.Forall₂ (fun mark n => Fits mark.2 n) ps ms)
    (hns : List.Forall₂ (fun mark n => Fits mark.2 n) ps ns)
    (h : placesText ps ms < placesText ps ns) : ms < ns := by
  induction hms generalizing ns with
  | nil => exact absurd h (lt_irrefl ['Z'])
  | cons hfits hrest ih =>
    cases hns with
    | cons hfits' hrest' =>
      have hbehind := (List.cons_lt_cons_iff.mp h).resolve_left (lt_irrefl _)
      rcases padded_append_lt hfits hfits' hbehind.2 with hlt | ⟨rfl, hlt⟩
      · exact .rel hlt
      · exact .cons (ih hrest' hlt)

/-- The instant of the earlier year is the earlier one. -/
theorem before_of_year_lt {i j : Instant} (h : i.year < j.year) : i.Before j := by
  have hday : i.seconds / 86400 < j.seconds / 86400 := Date.lt_of_before (.inl h)
  exact .inl (by omega)

/-- In one year, the instant with the earlier places is the earlier one. -/
theorem before_of_places_lt {i j : Instant} (hi : i.Denoted) (hj : j.Denoted)
    (hyear : i.year = j.year) (h : i.places < j.places) : i.Before j := by
  have hileap := hi.leap
  have hjleap := hj.leap
  simp only [places, List.cons_lt_cons_iff, lt_irrefl, and_false, or_false] at h
  by_cases hdate : Date.ofDayNumber (i.seconds / 86400) = Date.ofDayNumber (j.seconds / 86400)
  · have hday := Date.ofDayNumber_injective hdate
    simp only [hdate, lt_irrefl, true_and, false_or] at h
    obtain ⟨p, hp⟩ : ∃ p, p = (i.seconds % 86400).toNat := ⟨_, rfl⟩
    obtain ⟨q, hq⟩ : ∃ q, q = (j.seconds % 86400).toNat := ⟨_, rfl⟩
    -- Second sixty comes after the other seconds of its minute, and is told by the nanoseconds.
    have hleap : i.nanos < 1000000000 ∨ i.nanos < 2000000000 ∧ p % 60 = 59 := by omega
    have hleap' : j.nanos < 1000000000 ∨ j.nanos < 2000000000 ∧ q % 60 = 59 := by omega
    have hclock : p < q ∨ p = q ∧ i.nanos < j.nanos := by
      rw [← hp, ← hq] at h
      clear hp hq hday hdate hileap hjleap hyear
      rcases h with hhour | ⟨hhour, hminute | ⟨hminute, hsecond | ⟨hsecond, hmillis⟩⟩⟩
      · omega
      · omega
      · split at hsecond <;> split at hsecond <;> omega
      · by_cases hlate : 1000000000 ≤ i.nanos <;> by_cases hlate' : 1000000000 ≤ j.nanos <;>
          simp only [hlate, hlate', ↓reduceIte] at hsecond hmillis <;> omega
    unfold Before
    omega
  · have hbefore : (Date.ofDayNumber (i.seconds / 86400)).Before
        (Date.ofDayNumber (j.seconds / 86400)) := by
      rcases h with hmonth | ⟨hmonth, hday | ⟨hday, -⟩⟩
      · exact .inr ⟨hyear, .inl hmonth⟩
      · exact .inr ⟨hyear, .inr ⟨hmonth, hday⟩⟩
      · exact absurd (Date.ext hyear hmonth hday) hdate
    have hlt := Date.lt_of_before hbefore
    exact .inl (by omega)

/-! ### Years -/

/-- A sign is before the digits. -/
theorem sign_lt_padded {c : Char} (hc : c < '0') {width n : Nat} (xs ys : List Char) :
    c :: xs < padded width n ++ ys := by
  have hne : padded width n ≠ [] := by
    intro hnil
    have hdigits : Nat.toDigits 10 n = [] := (List.append_eq_nil_iff.mp hnil).2
    exact Nat.toDigits_ne_nil hdigits
  obtain ⟨d, ds, hds⟩ := List.exists_cons_of_ne_nil hne
  have hdigit : d.isDigit = true := isDigit_of_mem_padded (hds ▸ List.mem_cons_self)
  have hzero : '0' ≤ d := by
    simp only [Char.isDigit, Bool.and_eq_true, decide_eq_true_eq] at hdigit
    exact hdigit.1
  rw [hds]
  exact .rel (lt_of_lt_of_le hc hzero)

/-- How the years of the texts and those on either side are written. -/
theorem yearText_cases {y : Int} (h : -1 ≤ y ∧ y ≤ 10000) :
    y = -1 ∧ yearText y = '-' :: padded 4 1 ∨
      (0 ≤ y ∧ y ≤ 9999) ∧ yearText y = padded 4 y.toNat ∨
      y = 10000 ∧ yearText y = '+' :: padded 4 10000 := by
  by_cases hplain : 0 ≤ y ∧ y ≤ 9999
  · exact .inr (.inl ⟨hplain, if_pos hplain⟩)
  · obtain rfl | rfl : y = -1 ∨ y = 10000 := by omega
    · exact .inl ⟨rfl, rfl⟩
    · exact .inr (.inr ⟨rfl, rfl⟩)

/-- Texts are in the order of the years, but the plus sign of the year 10000 is before all other
beginnings. -/
theorem yearText_append_lt {y z : Int} (hy : -1 ≤ y ∧ y ≤ 10000) (hz : -1 ≤ z ∧ z ≤ 10000)
    {xs ys : List Char} (h : yearText y ++ xs < yearText z ++ ys) :
    y < z ∨ y = z ∧ xs < ys ∨ 9999 < y ∧ z ≤ 9999 := by
  have hsame : ∀ {width n : Nat}, padded width n ++ xs < padded width n ++ ys → xs < ys := by
    intro width n hlt
    have hdigits : ∀ c ∈ padded width n, c.isDigit = true := fun c hc => isDigit_of_mem_padded hc
    exact (digits_append_lt rfl hdigits hdigits hlt 0).elim (fun h => absurd h (lt_irrefl _)) (·.2)
  rcases yearText_cases hy with ⟨rfl, hytext⟩ | ⟨hyear, hytext⟩ | ⟨rfl, hytext⟩
  · rcases yearText_cases hz with ⟨rfl, hztext⟩ | ⟨hyear', -⟩ | ⟨rfl, -⟩
    · rw [hytext] at h
      exact .inr (.inl ⟨rfl, hsame ((List.cons_lt_cons_iff.mp h).resolve_left (lt_irrefl _)).2⟩)
    · exact .inl (by omega)
    · exact .inl (by omega)
  · rcases yearText_cases hz with ⟨rfl, hztext⟩ | ⟨hyear', hztext⟩ | ⟨rfl, -⟩
    · rw [hytext, hztext] at h
      exact absurd h (lt_asymm (sign_lt_padded (by decide) _ _))
    · rw [hytext, hztext] at h
      rcases padded_append_lt (fits_four (by omega)) (fits_four (by omega)) h with hlt | ⟨heq, hlt⟩
      · exact .inl (by omega)
      · exact .inr (.inl ⟨by omega, hlt⟩)
    · exact .inl (by omega)
  · rcases yearText_cases hz with ⟨rfl, -⟩ | ⟨hyear', -⟩ | ⟨rfl, hztext⟩
    · exact .inr (.inr (by omega))
    · exact .inr (.inr (by omega))
    · rw [hytext] at h
      exact .inr (.inl ⟨rfl, hsame ((List.cons_lt_cons_iff.mp h).resolve_left (lt_irrefl _)).2⟩)

/-- The year 10000 is written before all others. -/
theorem yearText_append_lt_of_lt {y z : Int} (hy : -1 ≤ y ∧ y ≤ 10000) (hz : -1 ≤ z)
    (hlate : 9999 < y) (h : z ≤ 9999) (xs ys : List Char) :
    yearText y ++ xs < yearText z ++ ys := by
  obtain rfl : y = 10000 := by omega
  have hzbounds : -1 ≤ z ∧ z ≤ 10000 := by omega
  rcases yearText_cases hzbounds with ⟨rfl, hztext⟩ | ⟨hyear, hztext⟩ | ⟨rfl, -⟩
  · rw [hztext]
    exact .rel (by decide)
  · rw [hztext]
    exact sign_lt_padded (by decide) _ _
  · omega

/-! ### Texts in order -/

theorem text_lt_iff {i j : Instant} : i.text < j.text ↔
    yearText i.year ++ placesText marks i.places <
      yearText j.year ++ placesText marks j.places := by
  rw [text_eq, text_eq, String.lt_iff, String.toList_ofList, String.toList_ofList]

/-- **The earlier text is the text of the earlier instant**, unless its year is 10000. -/
theorem before_of_text_lt {i j : Instant} (hi : i.Denoted) (hj : j.Denoted)
    (h : i.text < j.text) : i.Before j ∨ 9999 < i.year ∧ j.year ≤ 9999 := by
  rcases yearText_append_lt hi.year hj.year (text_lt_iff.mp h) with
    hyear | ⟨hyear, hplaces⟩ | hlate
  · exact .inl (before_of_year_lt hyear)
  · have hlt := placesText_lt (places_fit hi) (places_fit hj) hplaces
    exact .inl (before_of_places_lt hi hj hyear hlt)
  · exact .inr hlate

theorem Before.asymm {i j : Instant} (h : i.Before j) : ¬ j.Before i := by
  unfold Before at h ⊢
  omega

/-! ### Texts read again -/

/-- A text shows whole milliseconds. -/
theorem text_truncated (i : Instant) : i.truncated.text = i.text := by
  have hleap : 1000000000 ≤ i.nanos / 1000000 * 1000000 ↔ 1000000000 ≤ i.nanos := by omega
  have hmillis : (if 1000000000 ≤ i.nanos then i.nanos / 1000000 * 1000000 - 1000000000
      else i.nanos / 1000000 * 1000000) / 1000000 =
      (if 1000000000 ≤ i.nanos then i.nanos - 1000000000 else i.nanos) / 1000000 := by
    split <;> omega
  rw [text_eq, text_eq]
  simp only [truncated, year, places, hleap, hmillis]

/-- **The text of an instant is read as the instant in whole milliseconds if the year has four
digits, and not at all otherwise.** -/
theorem read?_text_of_denoted {i : Instant} (h : i.Denoted) :
    read? i.text = if 0 ≤ i.year ∧ i.year ≤ 9999 then some i.truncated else none := by
  split
  · rename_i hyear
    have hleap := h.leap
    have hshown : i.truncated.HasText := ⟨by simp only [truncated]; omega, hyear, by
      simp only [truncated]
      omega⟩
    rw [← text_truncated, read?_text hshown]
  · rename_i hyear
    rw [text_eq]
    rcases yearText_cases h.year with ⟨-, htext⟩ | ⟨hplain, -⟩ | ⟨-, htext⟩
    · rw [htext]
      exact read?_of_not_digit (String.toList_ofList) rfl
    · exact absurd hplain hyear
    · rw [htext]
      exact read?_of_not_digit (String.toList_ofList) rfl

/-- **Texts of instants are faithful and in order inside the years of four digits.** For two texts
that are read: the text of the first instant is read as the instant in whole milliseconds, whose
text it is again, exactly if the year in universal time has four digits, and is not read otherwise;
and if the first instant is before the second one, its text is not after the other text, except that
the second year is 10000 and the first one is not. -/
theorem texts_faithful_in_order {s t : String} {d e : Instant} (hd : read? s = some d)
    (he : read? t = some e) :
    (read? d.text = if 0 ≤ d.year ∧ d.year ≤ 9999 then some d.truncated else none) ∧
      d.truncated.text = d.text ∧
      (d.Before e → ((Json.string d.text).compare? (.string e.text) ≠ some .gt ↔
        (9999 < e.year → 9999 < d.year))) := by
  have hd := denoted_of_read? hd
  have he := denoted_of_read? he
  refine ⟨read?_text_of_denoted hd, text_truncated d, fun hbefore => ?_⟩
  have hafter : (Json.string d.text).compare? (.string e.text) = some .gt ↔ e.text < d.text :=
    Option.some_inj.trans compare_gt_iff_gt
  rw [Ne, hafter]
  constructor
  · intro hnot hlate
    by_contra hyear
    exact hnot (text_lt_iff.mpr
      (yearText_append_lt_of_lt he.year hd.year.1 hlate (Int.not_lt.mp hyear) _ _))
  · intro hyears hlt
    rcases before_of_text_lt he hd hlt with hback | ⟨hlate, hyear⟩
    · exact hbefore.asymm hback
    · exact absurd (hyears hlate) (Int.not_lt.mpr hyear)

/-- The end of 2016 with its leap second, and the new year in the east. -/
theorem texts_faithful_in_order_newYear :
    (read? "2016-12-31T23:59:60.987654321Z" = some ⟨1483228799, 1987654321⟩ ∧
      read? "2017-01-01T05:30:00.25+05:30" = some ⟨1483228800, 250000000⟩) ∧
      read? "2016-12-31T23:59:60.987Z" = some ⟨1483228799, 1987000000⟩ ∧
      (Json.string "2016-12-31T23:59:60.987Z").compare? (.string "2017-01-01T00:00:00.250Z") ≠
        some .gt := by
  have hd : read? "2016-12-31T23:59:60.987654321Z" = some ⟨1483228799, 1987654321⟩ := by decide
  have he : read? "2017-01-01T05:30:00.25+05:30" = some ⟨1483228800, 250000000⟩ := by decide
  have htext : (⟨1483228799, 1987654321⟩ : Instant).text = "2016-12-31T23:59:60.987Z" := by decide
  have htext' : (⟨1483228800, 250000000⟩ : Instant).text = "2017-01-01T00:00:00.250Z" := by decide
  obtain ⟨hread, -, horder⟩ := texts_faithful_in_order hd he
  rw [htext] at hread horder
  rw [htext'] at horder
  exact ⟨⟨hd, he⟩, hread, (horder (.inl (by decide))).mpr (by decide)⟩

/-- The last second of the year 9999 in the west of Greenwich is one of the year 10000: its text is
not read, and it is before the text of the second itself in universal time. -/
theorem last_second_not_read :
    ¬ (∀ s d, read? s = some d → read? d.text = some d.truncated) ∧
      ¬ (∀ s t d e, read? s = some d → read? t = some e → d.Before e →
        (Json.string d.text).compare? (.string e.text) ≠ some .gt) := by
  have hlate : read? "9999-12-31T23:59:59-00:01" = some ⟨253402300859, 0⟩ := by decide
  have hlast : read? "9999-12-31T23:59:59Z" = some ⟨253402300799, 0⟩ := by decide
  constructor
  · intro hread
    exact absurd (hread _ _ hlate) (by decide)
  · intro horder
    exact absurd (horder _ _ _ _ hlast hlate (.inl (by decide))) (by decide)

end DocumentMapper.Time.Instant

namespace DocumentMapper

open Time

/-- **A stored instant is decoded as the instant in whole milliseconds if the year has four digits,
and as its text otherwise.** -/
theorem Scalar.decodeLeaf_text {i : Instant} (h : i.Denoted) :
    Scalar.datetime.decodeLeaf (.string i.text) =
      if 0 ≤ i.year ∧ i.year ≤ 9999 then .datetime i.truncated else .string i.text := by
  rw [decodeLeaf, Instant.read?_text_of_denoted h]
  by_cases hyear : 0 ≤ i.year ∧ i.year ≤ 9999
  · rw [if_pos hyear, if_pos hyear]
  · rw [if_neg hyear, if_neg hyear]

end DocumentMapper
