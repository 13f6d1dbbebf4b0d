import DocumentMapper.Proofs.FailedEntries
import DocumentMapper.Proofs.StoredNumbers
import DocumentMapper.Proofs.WrittenPaths

/-!
# Counters

An update adds an integer to the number at a path, or multiplies the number with it. The result is
exact as long as the number, the operand and the result are signed words. Everything else is left to
binary64 numbers: both integers are rounded first, and what is stored is the number nearest to the
sum or the product of the rounded ones. From then on the counter is a binary64 number, and stays
one.

So a counter that is still an integer has the exact total of what was added to it, and it is an
integer as long as neither a running total nor an operand was out of the signed words. A counter at
the greatest signed word that goes up by one and down again is a binary64 number afterwards, and one
more than it was.

## Main results

* `ArithmeticOperator.gives_of_applyOperator`: what one change stores;
* `Counts.stored`: what is stored after any number of additions;
* `compileUpdate_dec_eq_ok`: a decrement is an increment by the negated operand.
-/

namespace DocumentMapper

open Number Text

/-! ### Rounded sums and products -/

namespace Number.Binary64

variable {x y z : Binary64}

/-- **A sum is rounded to the nearest number.** -/
theorem isNearest_add? (h : add? x y = some z) : z.IsNearest (x.value + y.value) := by
  have hsum : x.value + y.value = (x.units + y.units : Int) / (((1 : Nat) : ℚ) * unitsPerOne) := by
    rw [value, value, ← add_div, Int.cast_add, Nat.cast_one, one_mul]
  simp only [add?] at h
  split at h
  · rename_i hzero
    obtain rfl := Option.some.inj h
    have hvalue : x.value + y.value = (zero (x.negative && y.negative)).value := by
      rw [hsum, hzero, value, units_zero, Int.cast_zero, zero_div, zero_div]
    exact hvalue ▸ isNearest_value _
  · have ht : x.units + y.units =
        if decide (x.units + y.units < 0) then -((x.units + y.units).natAbs : Int)
        else (x.units + y.units).natAbs := by
      simp only [decide_eq_true_eq]
      split <;> omega
    exact hsum ▸ isNearest_of_ofUnits? Nat.one_pos h ht

/-- **A product is rounded to the nearest number.** -/
theorem isNearest_mul? (h : mul? x y = some z) : z.IsNearest (x.value * y.value) := by
  have ht : x.units * y.units =
      if x.negative != y.negative then -((x.magnitude * y.magnitude : Nat) : Int)
      else (x.magnitude * y.magnitude : Nat) := by
    unfold units
    cases x.negative <;> cases y.negative <;> simp
  have hproduct : x.value * y.value =
      (x.units * y.units : Int) / ((unitsPerOne : ℚ) * unitsPerOne) := by
    rw [value, value, div_mul_div_comm, Int.cast_mul]
  exact hproduct ▸ isNearest_of_ofUnits? unitsPerOne_pos h ht

end Number.Binary64

open Binary64

/-! ### Signed words -/

/-- The integer is a signed word. -/
def Number.IsWord (n : Int) : Prop :=
  -9223372036854775808 ≤ n ∧ n < 9223372036854775808

instance Number.IsWord.decidable (n : Int) : Decidable (IsWord n) :=
  inferInstanceAs (Decidable (_ ∧ _))

theorem Number.word?_of_isWord {n : Int} (h : IsWord n) : word? n = some (.ofInt n) :=
  if_pos h

theorem Number.word?_of_not_isWord {n : Int} (h : ¬ IsWord n) : word? n = none :=
  if_neg h

theorem Number.toInt_ofInt {n : Int} (h : IsWord n) : (Int64.ofInt n).toInt = n :=
  Int64.toInt_ofInt_of_le h.1 h.2

/-- The word that a stored integer is. -/
theorem Json.isWord_of_asInt64? {n : Whole} {m : Int64} (h : (Json.whole n).asInt64? = some m) :
    IsWord n.val ∧ m.toInt = n.val := by
  obtain rfl := Whole.ofInt64_of_toInt64? h
  exact ⟨⟨m.le_toInt, m.toInt_lt⟩, rfl⟩

/-! ### One change -/

/-- The operators that combine the number at a path with an operand. -/
inductive ArithmeticOperator where
  | inc
  | mul

namespace ArithmeticOperator

/-- The operator in update documents. -/
def name : ArithmeticOperator → String
  | inc => "$inc"
  | mul => "$mul"

/-- The operation on integers. -/
def onIntegers : ArithmeticOperator → Int → Int → Int
  | inc => (· + ·)
  | mul => (· * ·)

/-- The operation on exact values. -/
def onValues : ArithmeticOperator → ℚ → ℚ → ℚ
  | inc => (· + ·)
  | mul => (· * ·)

/-- The rounded operation on binary64 numbers. -/
def onDoubles? : ArithmeticOperator → Binary64 → Binary64 → Option Binary64
  | inc => add?
  | mul => mul?

/-- Two integers are combined as words: they and the result are signed words. -/
def FitsWords (a : ArithmeticOperator) (c b : Int) : Prop :=
  IsWord c ∧ IsWord b ∧ IsWord (a.onIntegers c b)

instance FitsWords.decidable (a : ArithmeticOperator) (c b : Int) : Decidable (a.FitsWords c b) :=
  inferInstanceAs (Decidable (_ ∧ _ ∧ _))

/-- What is stored for two integers: the exact result among words, and elsewhere the number nearest
to the result for the nearest numbers. -/
inductive Gives (a : ArithmeticOperator) (c b : Int) : Json → Prop
  | exact (n : Whole) (hfits : a.FitsWords c b) (hn : n.val = a.onIntegers c b) :
      Gives a c b (.whole n)
  | rounded {x y z : Binary64} (hfits : ¬ a.FitsWords c b) (hx : x.IsNearest c)
      (hy : y.IsNearest b) (hz : z.IsNearest (a.onValues x.value y.value)) : Gives a c b (.float z)

variable {a : ArithmeticOperator}

theorem isNearest_onDoubles? {x y z : Binary64} (h : a.onDoubles? x y = some z) :
    z.IsNearest (a.onValues x.value y.value) := by
  cases a with
  | inc => exact isNearest_add? h
  | mul => exact isNearest_mul? h

/-- Words are combined exactly. -/
theorem combineNumbers_words {c b : Whole} (h : a.FitsWords c.val b.val) :
    combineNumbers a.name a.onIntegers a.onDoubles? (.whole c) (.whole b) =
      .ok (.ofInt64 (.ofInt (a.onIntegers c.val b.val))) := by
  obtain ⟨hc, hb, hresult⟩ := h
  simp only [combineNumbers, Json.asInt64?, Whole.toInt64?, word?_of_isWord hc, word?_of_isWord hb,
    toInt_ofInt hc, toInt_ofInt hb, word?_of_isWord hresult]
  rfl

/-- Without words the operation is the rounded one. -/
theorem combineNumbers_doubles {current operand : Json} {x y : Binary64}
    (hwords : ∀ m n, current.asInt64? = some m → operand.asInt64? = some n →
      ¬ IsWord (a.onIntegers m.toInt n.toInt))
    (hx : current.asDouble? = some (.finite x)) (hy : operand.asDouble? = some (.finite y))
    {stored : Json} :
    combineNumbers a.name a.onIntegers a.onDoubles? current operand = .ok stored ↔
      ∃ z, a.onDoubles? x y = some z ∧ stored = .float z := by
  have hrounded : (combineNumbers a.name a.onIntegers a.onDoubles? current operand).toOption =
      (a.onDoubles? x y).map Json.float := by
    simp only [combineNumbers, hx, hy]
    cases hm : current.asInt64? with
    | none => cases a.onDoubles? x y <;> rfl
    | some m =>
      cases hn : operand.asInt64? with
      | none => cases a.onDoubles? x y <;> rfl
      | some n =>
        simp only [word?_of_not_isWord (hwords m n hm hn)]
        cases a.onDoubles? x y <;> rfl
  rw [← toOption_eq_some, hrounded]
  cases a.onDoubles? x y <;> simp [eq_comm]

/-- **What two integers are combined to.** -/
theorem gives_of_combineNumbers {c b : Whole} {stored : Json}
    (h : combineNumbers a.name a.onIntegers a.onDoubles? (.whole c) (.whole b) = .ok stored) :
    a.Gives c.val b.val stored := by
  by_cases hfits : a.FitsWords c.val b.val
  · rw [combineNumbers_words hfits] at h
    cases h
    exact .exact _ hfits (toInt_ofInt hfits.2.2)
  · obtain ⟨x, hx, hxnearest⟩ := Double.exists_isNearest c
    obtain ⟨y, hy, hynearest⟩ := Double.exists_isNearest b
    have hwords : ∀ m n, (Json.whole c).asInt64? = some m → (Json.whole b).asInt64? = some n →
        ¬ IsWord (a.onIntegers m.toInt n.toInt) := by
      intro m n hm hn hresult
      obtain ⟨hc, hmval⟩ := Json.isWord_of_asInt64? hm
      obtain ⟨hb, hnval⟩ := Json.isWord_of_asInt64? hn
      rw [hmval, hnval] at hresult
      exact hfits ⟨hc, hb, hresult⟩
    obtain ⟨z, hz, rfl⟩ :=
      (combineNumbers_doubles hwords (congrArg some hx) (congrArg some hy)).mp h
    exact .rounded hfits hxnearest hynearest (isNearest_onDoubles? hz)

/-- A binary64 number is combined to a binary64 number. -/
theorem float_of_combineNumbers {x : Binary64} {operand stored : Json}
    (h : combineNumbers a.name a.onIntegers a.onDoubles? (.float x) operand = .ok stored) :
    ∃ z, stored = .float z := by
  simp only [combineNumbers, Json.asInt64?, Option.none_or] at h
  split at h
  · rename_i hresult
    obtain rfl := Except.ok.inj h
    split at hresult
    · obtain ⟨z, -, rfl⟩ := Option.map_eq_some_iff.mp hresult
      exact ⟨z, rfl⟩
    · cases hresult
  · cases h

end ArithmeticOperator

/-- The integer at a path. A missing one counts as zero. -/
def Object.countAt? (doc : Object) (path : String) : Option Int :=
  match doc.getPath? path with
  | some (.whole n) => some n.val
  | some _ => none
  | none => some 0

namespace ArithmeticOperator

variable {a : ArithmeticOperator} {doc doc' : Object} {path : String} {inserting : Bool} {c : Int}
  {w : Whole} {operand : Json}

/-- A change stores at its path what the number there is combined to. -/
theorem combineNumbers_of_applyOperator
    (h : doc.applyOperator a.name path operand inserting = ⟨doc', none⟩) :
    ∃ stored, combineNumbers a.name a.onIntegers a.onDoubles?
        ((doc.getPath? path).getD (.ofInt64 0)) operand = .ok stored ∧
      doc'.getPath? path = some stored := by
  have hchange : doc.changeNumber path a.name a.onIntegers a.onDoubles? operand = .ok doc' := by
    cases a <;> exact Applied.ofExcept_eq_iff.mp h
  obtain ⟨stored, hcombined, hset⟩ := bind_eq_ok.mp hchange
  exact ⟨stored, hcombined, Object.getPath?_of_setPath hset⟩

/-- **What one change of an integer stores.** -/
theorem gives_of_applyOperator (hcount : doc.countAt? path = some c)
    (h : doc.applyOperator a.name path (.whole w) inserting = ⟨doc', none⟩) :
    ∃ stored, doc'.getPath? path = some stored ∧ a.Gives c w.val stored := by
  obtain ⟨stored, hcombined, hread⟩ := combineNumbers_of_applyOperator h
  refine ⟨stored, hread, ?_⟩
  unfold Object.countAt? at hcount
  split at hcount
  · rename_i n hn
    obtain rfl := Option.some.inj hcount
    rw [hn] at hcombined
    exact gives_of_combineNumbers hcombined
  · cases hcount
  · rename_i hnone
    obtain rfl := Option.some.inj hcount
    rw [hnone] at hcombined
    exact gives_of_combineNumbers (c := .ofInt64 0) hcombined

/-- A change of a binary64 number stores a binary64 number. -/
theorem float_of_applyOperator {x : Binary64} (hread : doc.getPath? path = some (.float x))
    (h : doc.applyOperator a.name path operand inserting = ⟨doc', none⟩) :
    ∃ z, doc'.getPath? path = some (.float z) := by
  obtain ⟨stored, hcombined, hstored⟩ := combineNumbers_of_applyOperator h
  rw [hread] at hcombined
  obtain ⟨z, rfl⟩ := float_of_combineNumbers hcombined
  exact ⟨z, hstored⟩

end ArithmeticOperator

/-! ### Any number of additions -/

/-- Updates that add integers to the number at a path, one after the other. Each one has a filter of
its own and may find the path by position. -/
inductive Counts (path : String) : List Int → Object → Object → Prop
  | done (doc : Object) : Counts path [] doc doc
  | add {doc next doc' filter : Object} {rawPath : String} {inserting : Bool} {w : Whole}
      {ws : List Int} (hpath : positionalPath doc filter rawPath = .ok path)
      (happly : doc.apply filter [("$inc", .object [(rawPath, .whole w)])] inserting =
        ⟨next, none⟩)
      (hrest : Counts path ws next doc') : Counts path (w.val :: ws) doc doc'

/-- The start, all operands and all running totals are signed words. -/
def StaysInWords (c : Int) : List Int → Prop
  | [] => IsWord c
  | w :: ws => IsWord c ∧ IsWord w ∧ StaysInWords (c + w) ws

instance StaysInWords.decidable : ∀ (c : Int) (ws : List Int), Decidable (StaysInWords c ws)
  | c, [] => inferInstanceAs (Decidable (IsWord c))
  | c, w :: ws =>
    have := StaysInWords.decidable (c + w) ws
    inferInstanceAs (Decidable (IsWord c ∧ IsWord w ∧ StaysInWords (c + w) ws))

namespace Counts

variable {path : String} {ws : List Int} {doc doc' : Object} {c : Int}

/-- A binary64 number remains one. -/
theorem float (h : Counts path ws doc doc') {x : Binary64}
    (hread : doc.getPath? path = some (.float x)) : ∃ z, doc'.getPath? path = some (.float z) := by
  induction h generalizing x with
  | done => exact ⟨x, hread⟩
  | add hpath happly hrest ih =>
    rw [Object.apply_single_at (by decide) hpath] at happly
    obtain ⟨y, hy⟩ := ArithmeticOperator.float_of_applyOperator (a := .inc) hread happly
    exact ih hy

/-- **What is stored after any number of additions**: the exact total as long as everything is a
signed word, and else a binary64 number. -/
theorem stored (h : Counts path ws doc doc') (hne : ws ≠ []) (hcount : doc.countAt? path = some c) :
    StaysInWords c ws ∧ (∃ n, doc'.getPath? path = some (.whole n) ∧ n.val = c + ws.sum) ∨
      ¬ StaysInWords c ws ∧ ∃ z, doc'.getPath? path = some (.float z) := by
  induction h generalizing c with
  | done => exact absurd rfl hne
  | @add doc next doc' filter rawPath inserting w ws hpath happly hrest ih =>
    rw [Object.apply_single_at (by decide) hpath] at happly
    obtain ⟨stored, hread, hgives⟩ :=
      ArithmeticOperator.gives_of_applyOperator (a := .inc) hcount happly
    cases hgives with
    | rounded hfits =>
      refine .inr ⟨fun hstays => hfits ?_, hrest.float hread⟩
      obtain ⟨hc, hw, htail⟩ := hstays
      refine ⟨hc, hw, ?_⟩
      cases ws with
      | nil => exact htail
      | cons v vs => exact htail.1
    | exact n hfits hn =>
      obtain ⟨hc, hw, hsum⟩ := hfits
      have hn : n.val = c + w.val := hn
      cases hrest with
      | done => exact .inl ⟨⟨hc, hw, hsum⟩, n, hread, by rw [hn, List.sum_singleton]⟩
      | @add _ _ _ _ _ _ v vs hpath happly hrest =>
        have hnext : next.countAt? path = some (c + w.val) := by
          rw [Object.countAt?, hread]
          exact congrArg some hn
        rcases ih (List.cons_ne_nil _ _) hnext with ⟨hstays, n, hn, htotal⟩ | ⟨hleaves, hfloat⟩
        · refine .inl ⟨⟨hc, hw, hstays⟩, n, hn, ?_⟩
          rw [htotal, List.sum_cons (a := w.val), Int.add_assoc]
        · exact .inr ⟨fun hstays => hleaves hstays.2.2, hfloat⟩

end Counts

/-! ### Decrements -/

section

variable {cat : Catalog} {t : DocumentType} {path : String} {n : Int64} {σ σ' : Supply}

theorem operationValue_dec {key : String} {v : Value} :
    (operationValue "dec" key (.int n)).runFrom σ = (.ok v, σ') ↔
      n ≠ Int64.minValue ∧ .int (-n) = v ∧ σ = σ' := by
  by_cases hn : n = Int64.minValue
  · simp [operationValue, Value.negated?, hn, refuseQuery]
  · simp [operationValue, Value.negated?, hn]

/-- **A decrement is an increment by the negated operand**, where there is one. -/
theorem compileUpdate_dec_eq_ok {update : Object} :
    (compileUpdate cat t [("dec__" ++ path, .int n)]).runFrom σ = (.ok update, σ') ↔
      n ≠ Int64.minValue ∧
        (compileUpdate cat t [("inc__" ++ path, .int (-n))]).runFrom σ = (.ok update, σ') := by
  have hdec : "dec" ∈ updateOperators := by decide
  have hinc : "inc" ∈ updateOperators := by decide
  have hkeys : "dec__" ++ path = "dec" ++ "__" ++ path ∧ "inc__" ++ path = "inc" ++ "__" ++ path :=
    ⟨rfl, rfl⟩
  have hnative : nativeOperator "dec" = nativeOperator "inc" := by decide
  rw [hkeys.1, hkeys.2, compileUpdate_single_eq_ok hdec, compileUpdate_single_eq_ok hinc]
  simp only [compileOperation_eq_ok hdec, compileOperation_eq_ok hinc, hnative]
  constructor
  · rintro ⟨operator, body, ⟨v, τ, elements, f, operand, hvalue, hrest⟩, rfl⟩
    obtain ⟨hn, rfl, rfl⟩ := operationValue_dec.mp hvalue
    exact ⟨hn, operator, body, ⟨_, _, elements, f, operand, rfl, hrest⟩, rfl⟩
  · rintro ⟨hn, operator, body, ⟨v, τ, elements, f, operand, hvalue, hrest⟩, rfl⟩
    obtain ⟨rfl, rfl⟩ : .int (-n) = v ∧ σ = τ := by simpa [operationValue] using hvalue
    exact ⟨operator, body, ⟨_, _, elements, f, operand, operationValue_dec.mpr ⟨hn, rfl, rfl⟩,
      hrest⟩, rfl⟩

end

/-! ### Exact counters -/

/-- **Counters are exact among the signed words.** One change, by any entry of an update, stores the
exact sum or product if the number, the operand and the result are signed words, and else the
binary64 number nearest to the sum or product of the binary64 numbers nearest to both. After any
number of additions a counter is an integer exactly if the start, all operands and all running
totals are signed words, and then it has the exact total. A decrement is an increment by the negated
operand, and the least word is refused. -/
theorem counters_exact_among_words :
    (∀ (a : ArithmeticOperator) (doc doc' : Object) (path : String) (inserting : Bool) (c : Int)
      (w : Whole), doc.countAt? path = some c →
        doc.applyOperator a.name path (.whole w) inserting = ⟨doc', none⟩ →
        ∃ stored, doc'.getPath? path = some stored ∧ a.Gives c w.val stored) ∧
      (∀ (path : String) (ws : List Int) (doc doc' : Object) (c : Int), Counts path ws doc doc' →
        ws ≠ [] → doc.countAt? path = some c →
        StaysInWords c ws ∧ (∃ n, doc'.getPath? path = some (.whole n) ∧ n.val = c + ws.sum) ∨
          ¬ StaysInWords c ws ∧ ∃ z, doc'.getPath? path = some (.float z)) ∧
      ∀ (cat : Catalog) (t : DocumentType) (path : String) (n : Int64) (σ σ' : Supply)
        (update : Object),
        (compileUpdate cat t [("dec__" ++ path, .int n)]).runFrom σ = (.ok update, σ') ↔
          n ≠ Int64.minValue ∧
            (compileUpdate cat t [("inc__" ++ path, .int (-n))]).runFrom σ = (.ok update, σ') :=
  ⟨fun _ _ _ _ _ _ _ => ArithmeticOperator.gives_of_applyOperator,
    fun _ _ _ _ _ h => h.stored, fun _ _ _ _ _ _ _ => compileUpdate_dec_eq_ok⟩

/-- A page with a counter. -/
def counted (visits : Json) : Object :=
  [("visits", visits)]

theorem dottedSegments_visits : dottedSegments "visits" = ["visits"] := by
  decide

theorem getPath?_counted (visits : Json) : (counted visits).getPath? "visits" = some visits := by
  simp [Object.getPath?, dottedSegments_visits, counted, Json.getPath?, Json.child?, Entries.get?]

/-- What becomes of the counter of a page. -/
theorem applyOperator_counted {a : ArithmeticOperator} {visits stored : Json} {w : Whole}
    (h : combineNumbers a.name a.onIntegers a.onDoubles? visits (.whole w) = .ok stored) :
    (counted visits).applyOperator a.name "visits" (.whole w) false = ⟨counted stored, none⟩ := by
  have hset : (counted visits).setPath "visits" stored = .ok (counted stored) := by
    simp only [Object.setPath, dottedSegments_visits, counted, Json.setSegments,
      Json.changePart_object]
    rfl
  have hchange : (counted visits).changeNumber "visits" a.name a.onIntegers a.onDoubles?
      (.whole w) = .ok (counted stored) := by
    rw [Object.changeNumber, getPath?_counted, Option.getD_some, h]
    exact hset
  cases a <;> exact Applied.ofExcept_eq_iff.mpr hchange

/-- The counter of a page goes on from what is stored. -/
theorem Counts.add_counted {visits stored : Json} {w : Whole} {ws : List Int} {doc' : Object}
    (h : combineNumbers "$inc" (· + ·) add? visits (.whole w) = .ok stored)
    (hrest : Counts "visits" ws (counted stored) doc') :
    Counts "visits" (w.val :: ws) (counted visits) doc' := by
  have hpath : positionalPath (counted visits) [] "visits" = .ok "visits" :=
    positionalPath_of_plain (by decide) _ _
  have happly : (counted visits).apply [] [("$inc", .object [("visits", .whole w)])] false =
      ⟨counted stored, none⟩ := by
    rw [Object.apply_single_at (by decide) hpath]
    exact applyOperator_counted (a := .inc) h
  exact .add hpath happly hrest

/-- A counter goes up to the greatest word and down again. -/
theorem counts_up_and_down : Counts "visits" [1, -1] (counted (.ofInt64 9223372036854775806))
    (counted (.ofInt64 9223372036854775806)) :=
  .add_counted (ArithmeticOperator.combineNumbers_words (a := .inc)
      (c := .ofInt64 9223372036854775806) (b := .ofInt64 1) (by decide))
    (.add_counted (ArithmeticOperator.combineNumbers_words (a := .inc)
        (c := .ofInt64 9223372036854775807) (b := .ofInt64 (-1)) (by decide)) (.done _))

/-- The counter of a page is multiplied as a word, and ends at the total of what was added. -/
theorem counters_exact_among_words_page :
    (∃ stored, (counted (.ofInt64 (-6))).getPath? "visits" = some stored ∧
      ArithmeticOperator.mul.Gives 3 (-2) stored) ∧
    ∃ n, (counted (.ofInt64 9223372036854775806)).getPath? "visits" = some (.whole n) ∧
      n.val = 9223372036854775806 + [1, -1].sum := by
  obtain ⟨hchange, hrun, -⟩ := counters_exact_among_words
  have hcount : ∀ n, (counted (.ofInt64 n)).countAt? "visits" = some n.toInt := fun n => by
    rw [Object.countAt?, getPath?_counted]
    rfl
  constructor
  · exact hchange .mul (counted (.ofInt64 3)) _ _ _ _ (.ofInt64 (-2)) (hcount 3)
      (applyOperator_counted (ArithmeticOperator.combineNumbers_words (by decide)))
  · rcases hrun _ _ _ _ _ counts_up_and_down (by decide) (hcount _) with ⟨-, htotal⟩ | ⟨hleaves, -⟩
    · exact htotal
    · exact absurd (by decide : StaysInWords 9223372036854775806 [1, -1]) hleaves

/-- The binary64 number just above the greatest word. -/
def aboveWords : Binary64 :=
  .power false 1085 (by decide)

/-- A counter at the greatest word goes up by one and down again, and is one more than it was. -/
theorem counter_drifts : ¬ ∀ (path : String) (ws : List Int) (doc doc' : Object) (c : Int),
    Counts path ws doc doc' → doc.countAt? path = some c →
      (doc'.getPath? path).bind Json.number? = some ((c + ws.sum : Int) : ℚ) := by
  intro h
  have hnearest : (Json.ofInt64 9223372036854775807).asDouble? = some (.finite aboveWords) := by
    decide +kernel
  have hone : (Json.ofInt64 1).asDouble? = some (.finite (.power false 1022 (by decide))) := by
    decide +kernel
  have hless : (Json.ofInt64 (-1)).asDouble? = some (.finite (.power true 1022 (by decide))) := by
    decide +kernel
  have hsum : add? aboveWords (.power false 1022 (by decide)) = some aboveWords := by
    decide +kernel
  have hdifference : add? aboveWords (.power true 1022 (by decide)) = some aboveWords := by
    decide +kernel
  have hleaves : ∀ m n, (Json.ofInt64 9223372036854775807).asInt64? = some m →
      (Json.ofInt64 1).asInt64? = some n → ¬ IsWord (m.toInt + n.toInt) := by
    intro m n hm hn
    rw [← Option.some.inj hm, ← Option.some.inj hn]
    decide
  have hnoword : ∀ m n, (Json.float aboveWords).asInt64? = some m →
      (Json.ofInt64 (-1)).asInt64? = some n → ¬ IsWord (m.toInt + n.toInt) :=
    fun _ _ hnone => nomatch hnone
  have hfloat : (Json.float aboveWords).asDouble? = some (.finite aboveWords) := rfl
  have hup : combineNumbers "$inc" (· + ·) add? (.ofInt64 9223372036854775807) (.ofInt64 1) =
      .ok (.float aboveWords) :=
    (ArithmeticOperator.combineNumbers_doubles (a := .inc) hleaves hnearest hone).mpr
      ⟨_, hsum, rfl⟩
  have hdown : combineNumbers "$inc" (· + ·) add? (.float aboveWords) (.ofInt64 (-1)) =
      .ok (.float aboveWords) :=
    (ArithmeticOperator.combineNumbers_doubles (a := .inc) hnoword hfloat hless).mpr
      ⟨_, hdifference, rfl⟩
  have hrun : Counts "visits" [1, -1] (counted (.ofInt64 9223372036854775807))
      (counted (.float aboveWords)) :=
    .add_counted (w := .ofInt64 1) hup (.add_counted (w := .ofInt64 (-1)) hdown (.done _))
  have hexact := h _ _ _ _ _ hrun rfl
  rw [getPath?_counted] at hexact
  have habove : aboveWords.value = (9223372036854775808 : Int) :=
    value_eq_intCast.mpr (by decide +kernel)
  rw [Option.bind_some, Json.number?, habove, Option.some.injEq, Int.cast_inj] at hexact
  exact absurd hexact (by decide)

end DocumentMapper
