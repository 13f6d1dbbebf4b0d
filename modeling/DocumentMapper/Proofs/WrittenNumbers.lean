import Mathlib.Tactic.NormNum
import DocumentMapper.Json.Printer
import DocumentMapper.Json.Reader
import DocumentMapper.Proofs.ShortestDigits

/-!
# Numbers in texts

A number is written in parts: the digits before the point, those behind it and the exponent. A
layout decides where the point goes and whether there is an exponent, but the parts denote the
decimal that was laid out. Reading takes the text apart again, wherever it goes on with the end of an
item or with nothing. Whole numbers have neither point nor exponent, and binary64 numbers in
documents always have one of them. So a text tells the form of a number, its sign and its value.

## Main results

* `Number.Layout.value_parts`: a layout keeps the value of a decimal;
* `Literal.readNumber_parts`: the parts of a number are read back from its text;
* `Number.Parts.Valid.numeral_unique`: a text begins with one number at most;
* `Number.Binary64.eq_of_numeral`: a binary64 number is determined by its numeral.
-/

namespace DocumentMapper

open Number Text

/-! ### Digits -/

theorem ofDigits_append (acc : Nat) (front back : List Char) :
    ofDigits acc (front ++ back) = ofDigits (ofDigits acc front) back :=
  List.foldl_append

theorem ofDigits_nil (acc : Nat) : ofDigits acc [] = acc :=
  rfl

theorem ofDigits_replicate (acc k : Nat) : ofDigits acc (List.replicate k '0') = acc * 10 ^ k := by
  induction k generalizing acc with
  | zero => simp [ofDigits]
  | succ k ih =>
    have hzero : ofDigits acc (List.replicate (k + 1) '0') =
        ofDigits (10 * acc) (List.replicate k '0') := rfl
    rw [hzero, ih]
    ring

theorem ofDigits_digitsOf (n : Nat) : ofDigits 0 (digitsOf n) = n :=
  Nat.ofDigitChars_ten_toDigits

theorem digitsOf_ne_nil (n : Nat) : digitsOf n ≠ [] :=
  Nat.toDigits_ne_nil

theorem length_digitsOf_pos (n : Nat) : 0 < (digitsOf n).length :=
  List.length_pos_iff.mpr (digitsOf_ne_nil n)

theorem isDigit_of_mem_digitsOf {n : Nat} : ∀ c ∈ digitsOf n, c.isDigit = true :=
  fun _ hc => Nat.isDigit_of_mem_toDigits (by decide) (by decide) hc

/-- Only zero begins with the digit zero. -/
theorem head?_digitsOf {n : Nat} (h : n ≠ 0) : (digitsOf n).head? ≠ some '0' := by
  induction n using Nat.strong_induction_on with
  | _ n ih =>
    rw [digitsOf, Nat.toDigits_eq_if (by decide)]
    split
    · have hdigit : ∀ m < 10, m ≠ 0 → Nat.digitChar m ≠ '0' := by decide
      simpa using hdigit n ‹_› h
    · have hrest := ih (n / 10) (by omega) (by omega)
      rw [digitsOf] at hrest
      rwa [List.head?_append_of_ne_nil _ Nat.toDigits_ne_nil]

/-! ### Parts of a number -/

namespace Number

/-- A number without its sign, as it is written. -/
structure Parts where
  /-- The digits before the point. -/
  whole : List Char
  /-- The digits behind the point. Without any there is no point. -/
  fraction : List Char
  exponent : Option Int

namespace Parts

/-- A point and the digits behind it, if there are any. -/
def pointText : List Char → List Char
  | [] => []
  | ds => '.' :: ds

/-- The mark, the sign and the digits of an exponent, if there is one. -/
def exponentText : Option Int → List Char
  | none => []
  | some e => 'e' :: (if e < 0 then '-' else '+') :: digitsOf e.natAbs

theorem pointText_of_ne_nil {ds : List Char} (h : ds ≠ []) : pointText ds = '.' :: ds := by
  cases ds with
  | nil => exact absurd rfl h
  | cons d ds => rfl

variable (p : Parts)

/-- The text of the parts. -/
def text : List Char :=
  p.whole ++ (pointText p.fraction ++ exponentText p.exponent)

/-- The text behind a sign, which only negative numbers have. -/
def signedText (negative : Bool) : List Char :=
  if negative then '-' :: p.text else p.text

/-- The decimal that the parts denote. -/
def decimal : Decimal :=
  ⟨ofDigits (ofDigits 0 p.whole) p.fraction, p.exponent.getD 0 - p.fraction.length⟩

/-- The numeral that the parts are read as. -/
def numeral (negative : Bool) : Numeral where
  negative := negative
  digits := p.decimal.digits
  exponent := p.decimal.exponent
  integral := p.fraction.isEmpty && p.exponent.isNone

/-- Parts of digits, with no zero in front that could be left out. -/
structure Valid : Prop where
  whole_ne_nil : p.whole ≠ []
  whole_digits : ∀ c ∈ p.whole, c.isDigit = true
  fraction_digits : ∀ c ∈ p.fraction, c.isDigit = true
  no_spare_zero : p.whole.length = 1 ∨ p.whole.head? ≠ some '0'

/-- The parts of a natural number. -/
def ofNat (n : Nat) : Parts :=
  ⟨digitsOf n, [], none⟩

theorem text_ofNat (n : Nat) : (ofNat n).text = digitsOf n := by
  simp [text, ofNat, pointText, exponentText]

theorem numeral_ofNat (negative : Bool) (n : Nat) :
    (ofNat n).numeral negative = ⟨negative, n, 0, true⟩ := by
  simp [numeral, decimal, ofNat, ofDigits_digitsOf, ofDigits_nil]

theorem no_spare_zero_digitsOf (n : Nat) :
    (digitsOf n).length = 1 ∨ (digitsOf n).head? ≠ some '0' := by
  by_cases hn : n = 0
  · subst hn
    exact .inl rfl
  · exact .inr (head?_digitsOf hn)

theorem valid_ofNat (n : Nat) : (ofNat n).Valid where
  whole_ne_nil := digitsOf_ne_nil n
  whole_digits := isDigit_of_mem_digitsOf
  fraction_digits := nofun
  no_spare_zero := no_spare_zero_digitsOf n

end Parts

/-! ### Layouts in parts -/

namespace Layout

variable (l : Layout) (d : Decimal)

/-- The parts of a decimal in positional notation. -/
def positionalParts : Parts :=
  let digits := digitsOf d.digits
  let whole : Int := digits.length + d.exponent
  if 0 ≤ d.exponent then
    ⟨digits ++ List.replicate d.exponent.toNat '0', if l.keepsPoint then ['0'] else [], none⟩
  else if 0 < whole then ⟨digits.take whole.toNat, digits.drop whole.toNat, none⟩
  else ⟨['0'], List.replicate (-whole).toNat '0' ++ digits, none⟩

/-- The parts of a decimal in scientific notation. -/
def scientificParts : Parts :=
  let digits := digitsOf d.digits
  ⟨digits.take 1, digits.tail, some (d.exponent + digits.length - 1)⟩

/-- The parts of a decimal. -/
def parts : Parts :=
  if l.positional (d.exponent + (digitsOf d.digits).length - 1) then l.positionalParts d
  else scientificParts d

/-- Some digits of a number with a negative exponent are behind the point. -/
theorem drop_digits_ne_nil {d : Decimal} (h : ¬ 0 ≤ d.exponent) :
    (digitsOf d.digits).drop ((digitsOf d.digits).length + d.exponent).toNat ≠ [] := by
  have hlength := length_digitsOf_pos d.digits
  rw [Ne, List.drop_eq_nil_iff]
  omega

theorem zeros_append_digits_ne_nil (k n : Nat) : List.replicate k '0' ++ digitsOf n ≠ [] :=
  List.append_ne_nil_of_right_ne_nil _ (digitsOf_ne_nil n)

theorem text_positionalParts :
    (l.positionalParts d).text = l.writePositional (digitsOf d.digits) d.exponent := by
  unfold positionalParts writePositional
  dsimp only
  split
  · cases l.keepsPoint <;> simp [Parts.text, Parts.pointText, Parts.exponentText]
  · rename_i hneg
    split
    · simp only [Parts.text, Parts.exponentText,
        Parts.pointText_of_ne_nil (drop_digits_ne_nil hneg), List.append_nil]
    · simp only [Parts.text, Parts.exponentText,
        Parts.pointText_of_ne_nil (zeros_append_digits_ne_nil _ _), List.append_nil]
      rfl

theorem text_scientificParts :
    (scientificParts d).text =
      writeScientific (digitsOf d.digits) (d.exponent + (digitsOf d.digits).length - 1) := by
  unfold scientificParts writeScientific Parts.text
  dsimp only
  cases (digitsOf d.digits).tail with
  | nil => simp [Parts.pointText, Parts.exponentText]
  | cons c cs => simp [Parts.pointText, Parts.exponentText]

/-- A number is written as the parts of its shortest decimal. -/
theorem write_eq (x : Binary64) :
    l.write x = (l.parts (x.shortest l.tie)).signedText x.negative := by
  have hbody : (l.parts (x.shortest l.tie)).text =
      if l.positional ((x.shortest l.tie).exponent +
          (digitsOf (x.shortest l.tie).digits).length - 1) then
        l.writePositional (digitsOf (x.shortest l.tie).digits) (x.shortest l.tie).exponent
      else writeScientific (digitsOf (x.shortest l.tie).digits)
        ((x.shortest l.tie).exponent + (digitsOf (x.shortest l.tie).digits).length - 1) := by
    unfold parts
    split
    · exact text_positionalParts l _
    · exact text_scientificParts _
  rw [Parts.signedText, hbody]
  rfl

/-- Digits at one power of ten are as many times larger at a smaller power. -/
theorem value_shift {n m : Nat} {e f : Int} (k : Nat) (hn : n = m * 10 ^ k) (he : e = f - k) :
    Decimal.value ⟨n, e⟩ = Decimal.value ⟨m, f⟩ := by
  subst hn he
  have hten : (10 : ℚ) ^ k ≠ 0 := by positivity
  rw [Decimal.value, Decimal.value, zpow_sub₀ (by norm_num), zpow_natCast]
  push_cast
  field_simp

theorem value_positionalParts : (l.positionalParts d).decimal.value = d.value := by
  obtain ⟨n, e⟩ := d
  unfold positionalParts
  dsimp only
  split
  · rename_i hnonneg
    cases l.keepsPoint with
    | true =>
      refine value_shift (e.toNat + 1) ?_ ?_
      · simp only [ofDigits_append, ofDigits_digitsOf, ofDigits_replicate, ↓reduceIte]
        rw [Nat.pow_succ, ← Nat.mul_assoc, Nat.mul_comm _ 10]
        rfl
      · simp
        omega
    | false =>
      refine value_shift e.toNat ?_ ?_
      · simp only [ofDigits_append, ofDigits_digitsOf, ofDigits_replicate, ofDigits_nil,
          Bool.false_eq_true, ↓reduceIte]
      · simp
        omega
  · split
    · refine value_shift 0 ?_ ?_
      · rw [← ofDigits_append, List.take_append_drop, ofDigits_digitsOf, Nat.pow_zero, Nat.mul_one]
      · simp
        omega
    · refine value_shift 0 ?_ ?_
      · have hzero : ofDigits 0 ['0'] = 0 := rfl
        rw [hzero, ofDigits_append, ofDigits_replicate, Nat.zero_mul, ofDigits_digitsOf,
          Nat.pow_zero, Nat.mul_one]
      · simp
        omega

theorem value_scientificParts : (scientificParts d).decimal.value = d.value := by
  obtain ⟨n, e⟩ := d
  have hlength := length_digitsOf_pos n
  refine value_shift 0 ?_ ?_
  · unfold scientificParts
    dsimp only
    rw [← ofDigits_append, ← List.drop_one, List.take_append_drop, ofDigits_digitsOf, Nat.pow_zero,
      Nat.mul_one]
  · simp [scientificParts]
    omega

/-- **A layout keeps the value of a decimal.** -/
theorem value_parts : (l.parts d).decimal.value = d.value := by
  unfold parts
  split
  · exact value_positionalParts l d
  · exact value_scientificParts d

/-- Positional notation has digits only, and none to leave out if a decimal of zero is the digit
zero. -/
theorem valid_positionalParts {d : Decimal} (hd : d.digits = 0 → d.exponent = 0) :
    (l.positionalParts d).Valid := by
  obtain ⟨n, e⟩ := d
  have hdigits : ∀ c ∈ digitsOf n, c.isDigit = true := isDigit_of_mem_digitsOf
  have hzeros : ∀ k, ∀ c ∈ List.replicate k '0', c.isDigit = true := fun k c hc => by
    rw [List.eq_of_mem_replicate hc]
    rfl
  unfold positionalParts
  dsimp only
  split
  · refine ⟨List.append_ne_nil_of_left_ne_nil (digitsOf_ne_nil n) _,
      List.forall_mem_append.mpr ⟨hdigits, hzeros _⟩, ?_, ?_⟩
    · cases l.keepsPoint
      · exact nofun
      · exact hzeros 1
    · by_cases hn : n = 0
      · obtain rfl := hd hn
        subst hn
        exact .inl rfl
      · refine .inr ?_
        rw [List.head?_append_of_ne_nil _ (digitsOf_ne_nil n)]
        exact head?_digitsOf hn
  · rename_i hneg
    have hn : n ≠ 0 := fun hn => hneg (hd hn).ge
    split
    · rename_i hwhole
      have hpos : 0 < (((digitsOf n).length : Int) + e).toNat := by omega
      refine ⟨?_, fun c hc => hdigits c (List.mem_of_mem_take hc),
        fun c hc => hdigits c (List.mem_of_mem_drop hc), .inr ?_⟩
      · simpa [List.take_eq_nil_iff, digitsOf_ne_nil] using hpos.ne'
      · rw [List.head?_take, if_neg hpos.ne']
        exact head?_digitsOf hn
    · exact ⟨List.cons_ne_nil _ _, hzeros 1, List.forall_mem_append.mpr ⟨hzeros _, hdigits⟩,
        .inl rfl⟩

theorem valid_scientificParts : (scientificParts d).Valid := by
  have hlength := length_digitsOf_pos d.digits
  refine ⟨?_, fun c hc => isDigit_of_mem_digitsOf c (List.mem_of_mem_take hc),
    fun c hc => isDigit_of_mem_digitsOf c (List.mem_of_mem_tail hc), .inl ?_⟩
  · simp [scientificParts, digitsOf_ne_nil]
  · simp [scientificParts]
    omega

theorem valid_parts {d : Decimal} (hd : d.digits = 0 → d.exponent = 0) : (l.parts d).Valid := by
  unfold parts
  split
  · exact valid_positionalParts l hd
  · exact valid_scientificParts d

/-- A layout that keeps the point has a point or an exponent. -/
theorem integral_parts (hpoint : l.keepsPoint = true) (negative : Bool) :
    ((l.parts d).numeral negative).integral = false := by
  unfold parts
  split
  · have hfraction : (l.positionalParts d).fraction ≠ [] := by
      unfold positionalParts
      dsimp only
      split
      · exact List.cons_ne_nil _ _
      · rename_i hneg
        split
        · exact drop_digits_ne_nil hneg
        · exact zeros_append_digits_ne_nil _ _
    simp [Parts.numeral, hfraction]
  · simp [Parts.numeral, scientificParts]

end Layout

end Number

/-! ### Ends of texts -/

/-- A text that is over or goes on with the end of an item. -/
def Delimited (tail : List Char) : Prop :=
  ∀ c ∈ tail.head?, c = ',' ∨ c = ']' ∨ c = '\x7d'

theorem delimited_nil : Delimited [] :=
  nofun

theorem delimited_cons {c : Char} (h : c = ',' ∨ c = ']' ∨ c = '\x7d') (tail : List Char) :
    Delimited (c :: tail) := by
  intro d hd
  obtain rfl := Option.some.inj hd
  exact h

/-- No digit comes first. -/
def NoDigitFirst (tail : List Char) : Prop :=
  ∀ c ∈ tail.head?, c.isDigit = false

theorem Delimited.noDigitFirst {tail : List Char} (h : Delimited tail) : NoDigitFirst tail := by
  intro c hc
  rcases h c hc with rfl | rfl | rfl <;> rfl

theorem noDigitFirst_cons {c : Char} (h : c.isDigit = false) (tail : List Char) :
    NoDigitFirst (c :: tail) := by
  intro d hd
  obtain rfl := Option.some.inj hd
  exact h

namespace Literal

variable {negative : Bool} {ds whole fraction tail : List Char}

/-- Digits are read up to what is none. -/
theorem readDigits_append (hne : ds ≠ []) (hds : ∀ c ∈ ds, c.isDigit = true)
    (htail : NoDigitFirst tail) : readDigits (ds ++ tail) = some (ds, tail) := by
  have hrest : tail.takeWhile Char.isDigit = [] ∧ tail.dropWhile Char.isDigit = tail := by
    cases tail with
    | nil => exact ⟨rfl, rfl⟩
    | cons c cs => simp [htail c rfl]
  rw [readDigits, List.takeWhile_append_of_pos hds, List.dropWhile_append_of_pos hds, hrest.1,
    hrest.2, List.append_nil]
  simp [hne]

/-- A text that ends an item has no exponent. -/
theorem readExponent_of_delimited (h : Delimited tail) : readExponent tail = some (none, tail) := by
  cases tail with
  | nil => rfl
  | cons c cs => rcases h c rfl with rfl | rfl | rfl <;> rfl

/-- A point and digits are read back. -/
theorem readFraction_pointText (hds : ∀ c ∈ ds, c.isDigit = true) (htail : NoDigitFirst tail)
    (hpoint : tail.head? ≠ some '.') :
    readFraction (Parts.pointText ds ++ tail) = some (ds, tail) := by
  cases ds with
  | nil =>
    change readFraction tail = some ([], tail)
    unfold readFraction
    split
    · exact absurd rfl hpoint
    · rfl
  | cons d ds =>
    change readDigits (d :: ds ++ tail) = _
    exact readDigits_append (List.cons_ne_nil d ds) hds htail

theorem readExponentDigits_digitsOf (negative : Bool) (n : Nat) (htail : Delimited tail) :
    readExponentDigits negative (digitsOf n ++ tail) =
      some (some (if negative then -(n : Int) else n), tail) := by
  rw [readExponentDigits, readDigits_append (digitsOf_ne_nil n) isDigit_of_mem_digitsOf
    htail.noDigitFirst, Option.map_some]
  simp only [ofDigits_digitsOf]

/-- An exponent is read back from its text. -/
theorem readExponent_exponentText (htail : Delimited tail) (exponent : Option Int) :
    readExponent (Parts.exponentText exponent ++ tail) = some (exponent, tail) := by
  cases exponent with
  | none => exact readExponent_of_delimited htail
  | some e =>
    rw [Parts.exponentText]
    split
    · rename_i he
      have hvalue : -(e.natAbs : Int) = e := by omega
      refine (readExponentDigits_digitsOf true e.natAbs htail).trans ?_
      rw [if_pos rfl, hvalue]
    · rename_i he
      have hvalue : (e.natAbs : Int) = e := by omega
      refine (readExponentDigits_digitsOf false e.natAbs htail).trans ?_
      rw [if_neg Bool.false_ne_true, hvalue]

/-- Neither a digit nor a point comes first where the digits behind the point are over. -/
theorem exponentText_first (htail : Delimited tail) (exponent : Option Int) :
    NoDigitFirst (Parts.exponentText exponent ++ tail) ∧
      (Parts.exponentText exponent ++ tail).head? ≠ some '.' := by
  cases exponent with
  | none =>
    refine ⟨htail.noDigitFirst, fun hpoint => ?_⟩
    rcases htail '.' hpoint with h | h | h <;> cases h
  | some e => exact ⟨noDigitFirst_cons rfl _, by simp [Parts.exponentText]⟩

theorem pointText_first (htail : NoDigitFirst tail) (ds : List Char) :
    NoDigitFirst (Parts.pointText ds ++ tail) := by
  cases ds with
  | nil => exact htail
  | cons d ds => exact noDigitFirst_cons rfl _

/-- **The parts of a number are read back from its text.** -/
theorem readNumber_parts {p : Parts} (hp : p.Valid) (htail : Delimited tail) (negative : Bool) :
    readNumber negative (p.text ++ tail) = some (.number (p.numeral negative), tail) := by
  obtain ⟨hfirst, hpoint⟩ := exponentText_first htail p.exponent
  have htext : p.text ++ tail =
      p.whole ++ (Parts.pointText p.fraction ++ (Parts.exponentText p.exponent ++ tail)) := by
    simp only [Parts.text, List.append_assoc]
  have hwhole : ¬ (p.whole.length ≠ 1 ∧ p.whole.head? = some '0') := fun h =>
    hp.no_spare_zero.elim h.1 (absurd h.2)
  rw [htext, readNumber, readDigits_append hp.whole_ne_nil hp.whole_digits
    (pointText_first hfirst p.fraction)]
  simp only [bind_pure_comp, Option.bind_eq_bind, Option.bind_some, if_neg hwhole,
    readFraction_pointText hp.fraction_digits hfirst hpoint, readExponent_exponentText htail]
  rfl

end Literal

/-! ### Texts that begin with a number -/

open Literal

/-- A number begins with a digit. -/
theorem Number.Parts.Valid.exists_digit {p : Parts} (hp : p.Valid) :
    ∃ c cs, p.text = c :: cs ∧ c.isDigit = true := by
  obtain ⟨c, cs, hwhole⟩ := List.exists_cons_of_ne_nil hp.whole_ne_nil
  refine ⟨c, cs ++ (Parts.pointText p.fraction ++ Parts.exponentText p.exponent), ?_, ?_⟩
  · rw [Parts.text, hwhole, List.cons_append]
  · exact hp.whole_digits c (hwhole ▸ List.mem_cons_self)

/-- **A text begins with one number at most.** -/
theorem Number.Parts.Valid.numeral_unique {p q : Parts} (hp : p.Valid) (hq : q.Valid)
    {tail tail' : List Char} (htail : Delimited tail) (htail' : Delimited tail')
    {negative negative' : Bool}
    (h : p.signedText negative ++ tail = q.signedText negative' ++ tail') :
    p.numeral negative = q.numeral negative' ∧ tail = tail' := by
  have hsign : ∀ {r s : Parts}, r.Valid → ∀ {t t' : List Char},
      r.text ++ t ≠ '-' :: (s.text ++ t') := by
    intro r s hr t t' heq
    obtain ⟨c, cs, htext, hdigit⟩ := hr.exists_digit
    rw [htext] at heq
    obtain rfl := (List.cons.inj heq).1
    cases hdigit
  have hread : p.text ++ tail = q.text ++ tail' → negative = negative' →
      p.numeral negative = q.numeral negative' ∧ tail = tail' := by
    rintro htext rfl
    have hread := readNumber_parts hp htail negative
    rw [htext, readNumber_parts hq htail' negative] at hread
    obtain ⟨hnumber, rfl⟩ := Prod.mk.inj (Option.some.inj hread)
    exact ⟨(Literal.number.inj hnumber).symm, rfl⟩
  cases negative with
  | false =>
    cases negative' with
    | false => exact hread h rfl
    | true => exact absurd h (hsign hp)
  | true =>
    cases negative' with
    | false => exact absurd h.symm (hsign hq)
    | true => exact hread (List.cons.inj h).2 rfl

/-! ### Numbers of documents -/

/-- The numeral of an integer. -/
theorem Json.integerText_eq (n : Int) :
    integerText n = (Parts.ofNat n.natAbs).signedText (decide (n < 0)) := by
  rw [Parts.signedText, Parts.text_ofNat, integerText]
  simp

/-- An integer is determined by its numeral. -/
theorem eq_of_numeral_ofNat {m n : Int}
    (h : (Parts.ofNat m.natAbs).numeral (decide (m < 0)) =
      (Parts.ofNat n.natAbs).numeral (decide (n < 0))) : m = n := by
  simp only [Parts.numeral_ofNat, Numeral.mk.injEq, decide_eq_decide] at h
  omega

/-- The parts of a binary64 number in a document. -/
def Number.Binary64.parts (x : Binary64) : Parts :=
  Layout.data.parts (x.shortest .toEven)

/-- The decimal of a number is zero only for zero, which has no exponent. -/
theorem Number.Binary64.valid_parts (x : Binary64) : x.parts.Valid := by
  refine Layout.valid_parts _ fun hdigits => ?_
  cases hx : x.isZero with
  | true => rw [shortest_of_zero _ hx]
  | false =>
    have hpos := shortest_value_pos .toEven hx
    rw [Decimal.value, hdigits, Nat.cast_zero, zero_mul] at hpos
    exact absurd hpos (lt_irrefl 0)

theorem Number.Binary64.write_data (x : Binary64) :
    Layout.data.write x = x.parts.signedText x.negative :=
  Layout.write_eq _ x

/-- **A binary64 number is determined by its numeral.** -/
theorem Number.Binary64.eq_of_numeral {x y : Binary64}
    (h : x.parts.numeral x.negative = y.parts.numeral y.negative) : x = y := by
  obtain ⟨hsign, hdigits, hexponent, -⟩ := Numeral.mk.inj h
  have hvalue : (x.shortest .toEven).value = (y.shortest .toEven).value :=
    calc (x.shortest .toEven).value = x.parts.decimal.value := (Layout.value_parts _ _).symm
      _ = y.parts.decimal.value := by rw [Decimal.value, hdigits, hexponent, Decimal.value]
      _ = (y.shortest .toEven).value := Layout.value_parts _ _
  exact eq_of_magnitude hsign (magnitude_eq_of_shortest hvalue)

/-- The numeral of a binary64 number is not that of an integer. -/
theorem Number.Binary64.integral_parts (x : Binary64) (negative : Bool) :
    (x.parts.numeral negative).integral = false :=
  Layout.integral_parts _ _ rfl negative

end DocumentMapper
