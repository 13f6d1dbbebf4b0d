import DocumentMapper.Proofs.KeywordConditions
import DocumentMapper.Proofs.SameValues

/-!
# Conditions on listed values

Three operators take a list of values. What is at a path can be asked for any of them, for none of
them or for all of them. The first two go through the list and ask for one value after the other,
and so they say what the conditions of equality, or of inequality, on the listed values say
together.

The third one looks for one place that has all of them. It takes numbers in the form in which they
are written, and null for a value that is there. So it finds less than the conditions of equality
together, which may find each value somewhere else, in another form, or as the array itself.

## Main results

* `conditionHolds_in`, `conditionHolds_nin`, `conditionHolds_all`: what the operators answer;
* `Json.HoldsAll.finds`: where all values are held together, each of them is found;
* `listed_conditions`: the operators beside the conditions on the listed values.
-/

namespace DocumentMapper

open Text

variable {listed values : List Json} {c v : Json} {depth : Nat}

/-! ### Any and none of the values -/

/-- A listed value that is searched for as a pattern. -/
def Json.IsPattern (c : Json) : Prop :=
  Entries.contains (c.asObject?.getD []) "$regex" = true

theorem Json.not_isPattern (h : c.asObject? = none) : ¬ c.IsPattern := by
  rw [IsPattern, h]
  exact Bool.false_ne_true

/-- Listed values are searched for one after the other. -/
theorem candidateHolds_plain (hplain : ∀ c ∈ listed, ¬ c.IsPattern) (values : List Json) :
    candidateHolds listed values = .ok (listed.any (equalsAny values)) := by
  induction listed with
  | nil => rfl
  | cons c rest ih =>
    obtain ⟨hc, hrest⟩ := List.forall_mem_cons.mp hplain
    rw [candidateHolds, Bool.eq_false_iff.mpr hc, ih hrest, List.any_cons]
    cases equalsAny values c <;> rfl

theorem conditionHolds_in (hplain : ∀ c ∈ listed, ¬ c.IsPattern) (values : List Json)
    (depth : Nat) :
    conditionHolds (.single "$in" (.array listed)) values depth =
      .ok (listed.any (equalsAny values)) := by
  rw [conditionHolds_single (by decide)]
  exact candidateHolds_plain hplain values

theorem conditionHolds_nin (hplain : ∀ c ∈ listed, ¬ c.IsPattern) (values : List Json)
    (depth : Nat) :
    conditionHolds (.single "$nin" (.array listed)) values depth =
      .ok !listed.any (equalsAny values) := by
  have hin : isAmong "$nin" (.array listed) values = .ok (listed.any (equalsAny values)) :=
    candidateHolds_plain hplain values
  rw [conditionHolds_single (by decide)]
  simp only [operatorHolds, hin]
  rfl

theorem conditionHolds_ne (c : Json) (values : List Json) (depth : Nat) :
    conditionHolds (.single "$ne" c) values depth = .ok !equalsAny values c := by
  rw [conditionHolds_single (by decide)]
  rfl

/-! ### All of the values -/

/-- Whether a value holds all listed ones together, in the form in which they are written: an array
has each of them among its items, and anything else can be the only one that is listed. -/
inductive Json.HoldsAll (listed : List Json) : Json → Prop where
  | array {items : List Json} (h : ∀ c ∈ listed, ∃ item ∈ items, item.equal c = true) :
      HoldsAll listed (.array items)
  | only {v c : Json} (hv : v.asArray? = none) (hlisted : listed = [c]) (h : v.equal c = true) :
      HoldsAll listed v

namespace Json

theorem isIn_iff {items : List Json} :
    Json.isIn items c = true ↔ ∃ item ∈ items, item.equal c = true :=
  List.any_eq_true

/-- The test for all listed values. -/
theorem holdsAll_iff :
    v.HoldsAll listed ↔ (match v with
      | .array present => listed.all (Json.isIn present)
      | _ => listed.length == 1 && listed.all fun w => v.equal w) = true := by
  have honly : (listed.length == 1 && listed.all fun w => v.equal w) = true ↔
      ∃ c, listed = [c] ∧ v.equal c = true := by
    rw [Bool.and_eq_true, beq_iff_eq, List.length_eq_one_iff]
    constructor
    · rintro ⟨⟨c, rfl⟩, h⟩
      exact ⟨c, rfl, by simpa using h⟩
    · rintro ⟨c, rfl, h⟩
      exact ⟨⟨c, rfl⟩, by simpa using h⟩
  have hother : v.asArray? = none → (v.HoldsAll listed ↔ ∃ c, listed = [c] ∧ v.equal c = true) := by
    intro hv
    constructor
    · rintro (⟨h⟩ | ⟨-, hlisted, h⟩)
      · cases hv
      · exact ⟨_, hlisted, h⟩
    · rintro ⟨c, hlisted, h⟩
      exact .only hv hlisted h
  cases v with
  | array present =>
    simp only [List.all_eq_true, isIn_iff]
    constructor
    · rintro (⟨h⟩ | ⟨hv, -, -⟩)
      · exact h
      · cases hv
    · exact .array
  | _ => exact (hother rfl).trans honly.symm

/-- **Where all values are held together, each of them is found.** -/
theorem HoldsAll.finds (h : v.HoldsAll listed) (hv : v ∈ values) :
    ∀ c ∈ listed, Finds c values := by
  intro c hc
  cases h with
  | array h =>
    obtain ⟨item, hitem, heq⟩ := h c hc
    exact .item hv hitem (.inl heq)
  | only hnot hlisted h =>
    subst hlisted
    obtain rfl := List.mem_singleton.mp hc
    exact .value hv (.inl h)

/-- An array holds values that are found in it, if none of them is an array itself and numbers are
written alike. -/
theorem holdsAll_of_finds {items : List Json}
    (hforms : ∀ c ∈ listed, c.asArray? = none ∧
      ∀ item ∈ items, SameNumber item c → item.equal c = true)
    (h : ∀ c ∈ listed, Finds c [.array items]) : (Json.array items).HoldsAll listed := by
  refine .array fun c hc => ?_
  obtain ⟨hnot, hform⟩ := hforms c hc
  cases h c hc with
  | value hmem hsame =>
    obtain rfl := List.mem_singleton.mp hmem
    rcases hsame with hequal | hnumber
    · cases c with
      | array others => cases hnot
      | _ => cases hequal
    · cases hnumber.isNumber.1
  | item hmem hitem hsame =>
    obtain rfl := Json.array.inj (List.mem_singleton.mp hmem)
    exact ⟨_, hitem, hsame.elim id (hform _ hitem)⟩

end Json

theorem conditionHolds_all (listed values : List Json) (depth : Nat) :
    ∃ b, conditionHolds (.single "$all" (.array listed)) values depth = .ok b ∧
      (b = true ↔ ∃ v ∈ values, v.HoldsAll listed) := by
  refine ⟨_, conditionHolds_single (by decide) values depth, ?_⟩
  rw [List.any_eq_true]
  exact exists_congr fun v => and_congr_right fun _ => Json.holdsAll_iff.symm

/-! ### Conditions at a path -/

/-- A condition of equality on data. -/
theorem meets_data_iff {r : Object} {path : String} (hpath : path ∉ connectives)
    (hc : c.asObject? = none) :
    r.meets [(path, c)] = .ok true ↔ beginsWith "$" path = false ∧ Finds c (r.lookup path) := by
  rw [meets_single_iff hpath, conditionHolds_of_data (Json.not_isOperators hc), Except.ok.injEq,
    equalsAny_iff]

/-- The condition that one of the values is found. -/
theorem meets_in_iff {r : Object} {path : String} (hpath : path ∉ connectives)
    (hdata : ∀ c ∈ listed, c.asObject? = none) :
    r.meets [(path, .single "$in" (.array listed))] = .ok true ↔
      beginsWith "$" path = false ∧ ∃ c ∈ listed, Finds c (r.lookup path) := by
  rw [meets_single_iff hpath, conditionHolds_in fun c hc => Json.not_isPattern (hdata c hc),
    Except.ok.injEq, List.any_eq_true]
  simp only [equalsAny_iff]

/-- The condition that none of the values is found. -/
theorem meets_nin_iff {r : Object} {path : String} (hpath : path ∉ connectives)
    (hdata : ∀ c ∈ listed, c.asObject? = none) :
    r.meets [(path, .single "$nin" (.array listed))] = .ok true ↔
      beginsWith "$" path = false ∧ ∀ c ∈ listed, ¬ Finds c (r.lookup path) := by
  rw [meets_single_iff hpath, conditionHolds_nin fun c hc => Json.not_isPattern (hdata c hc),
    Except.ok.injEq, Bool.not_eq_true', List.any_eq_false]
  simp only [equalsAny_iff]

/-- A condition of inequality. -/
theorem meets_ne_iff {r : Object} {path : String} (hpath : path ∉ connectives) (c : Json) :
    r.meets [(path, .single "$ne" c)] = .ok true ↔
      beginsWith "$" path = false ∧ ¬ Finds c (r.lookup path) := by
  rw [meets_single_iff hpath, conditionHolds_ne, Except.ok.injEq, Bool.not_eq_true',
    ← equalsAny_iff, Bool.not_eq_true]

/-- The condition that all values are held together. -/
theorem meets_all_iff {r : Object} {path : String} (hpath : path ∉ connectives) :
    r.meets [(path, .single "$all" (.array listed))] = .ok true ↔
      beginsWith "$" path = false ∧ ∃ v ∈ r.lookup path, v.HoldsAll listed := by
  obtain ⟨b, hanswer, hb⟩ := conditionHolds_all listed (r.lookup path) 0
  rw [meets_single_iff hpath, hanswer, Except.ok.injEq, hb]

/-- All conditions of equality together. -/
theorem forall_meets_data_iff {r : Object} {path : String} (hpath : path ∉ connectives)
    (hdata : ∀ c ∈ listed, c.asObject? = none) (hne : listed ≠ []) :
    (∀ c ∈ listed, r.meets [(path, c)] = .ok true) ↔
      beginsWith "$" path = false ∧ ∀ c ∈ listed, Finds c (r.lookup path) := by
  obtain ⟨first, hfirst⟩ := List.exists_mem_of_ne_nil listed hne
  constructor
  · intro h
    exact ⟨((meets_data_iff hpath (hdata first hfirst)).mp (h first hfirst)).1,
      fun c hc => ((meets_data_iff hpath (hdata c hc)).mp (h c hc)).2⟩
  · rintro ⟨hname, h⟩ c hc
    exact (meets_data_iff hpath (hdata c hc)).mpr ⟨hname, h c hc⟩

/-- **The operators on listed values beside the conditions on these values.** One that asks for any
of them says that some condition of equality is met, and one that asks for none of them that every
condition of inequality is. One that asks for all of them is met where one value holds them
together. Then every condition of equality is met, and it is the other way round exactly if there is
such a value wherever each of them is found. An array at the path is one if none of the values is an
array and numbers are written alike. -/
theorem listed_conditions (r : Object) {path : String} (hpath : path ∉ connectives)
    (hdata : ∀ c ∈ listed, c.asObject? = none) (hne : listed ≠ []) :
    (r.meets [(path, .single "$in" (.array listed))] = .ok true ↔
      ∃ c ∈ listed, r.meets [(path, c)] = .ok true) ∧
    (r.meets [(path, .single "$nin" (.array listed))] = .ok true ↔
      ∀ c ∈ listed, r.meets [(path, .single "$ne" c)] = .ok true) ∧
    (r.meets [(path, .single "$all" (.array listed))] = .ok true ↔
      beginsWith "$" path = false ∧ ∃ v ∈ r.lookup path, v.HoldsAll listed) ∧
    (r.meets [(path, .single "$all" (.array listed))] = .ok true →
      ∀ c ∈ listed, r.meets [(path, c)] = .ok true) ∧
    (((∀ c ∈ listed, r.meets [(path, c)] = .ok true) →
        r.meets [(path, .single "$all" (.array listed))] = .ok true) ↔
      (beginsWith "$" path = false → (∀ c ∈ listed, Finds c (r.lookup path)) →
        ∃ v ∈ r.lookup path, v.HoldsAll listed)) ∧
    (∀ items, r.lookup path = [.array items] →
      (∀ c ∈ listed, c.asArray? = none ∧
        ∀ item ∈ items, SameNumber item c → item.equal c = true) →
      (r.meets [(path, .single "$all" (.array listed))] = .ok true ↔
        ∀ c ∈ listed, r.meets [(path, c)] = .ok true)) := by
  have hall : r.meets [(path, .single "$all" (.array listed))] = .ok true ↔ _ :=
    meets_all_iff hpath
  have heach : (∀ c ∈ listed, r.meets [(path, c)] = .ok true) ↔ _ :=
    forall_meets_data_iff hpath hdata hne
  have hentails : r.meets [(path, .single "$all" (.array listed))] = .ok true →
      ∀ c ∈ listed, r.meets [(path, c)] = .ok true := by
    rw [hall, heach]
    rintro ⟨hname, v, hv, hholds⟩
    exact ⟨hname, hholds.finds hv⟩
  refine ⟨?_, ?_, hall, hentails, ?_, ?_⟩
  · rw [meets_in_iff hpath hdata]
    constructor
    · rintro ⟨hname, c, hc, hfinds⟩
      exact ⟨c, hc, (meets_data_iff hpath (hdata c hc)).mpr ⟨hname, hfinds⟩⟩
    · rintro ⟨c, hc, hmet⟩
      obtain ⟨hname, hfinds⟩ := (meets_data_iff hpath (hdata c hc)).mp hmet
      exact ⟨hname, c, hc, hfinds⟩
  · rw [meets_nin_iff hpath hdata]
    simp only [meets_ne_iff hpath]
    obtain ⟨first, hfirst⟩ := List.exists_mem_of_ne_nil listed hne
    exact ⟨fun h c hc => ⟨h.1, h.2 c hc⟩, fun h => ⟨(h first hfirst).1, fun c hc => (h c hc).2⟩⟩
  · rw [hall, heach]
    exact ⟨fun h hname hfinds => (h ⟨hname, hfinds⟩).2,
      fun h hfound => ⟨hfound.1, h hfound.1 hfound.2⟩⟩
  · intro items hlookup hforms
    refine ⟨hentails, fun h => hall.mpr ?_⟩
    obtain ⟨hname, hfinds⟩ := heach.mp h
    rw [hlookup] at hfinds ⊢
    exact ⟨hname, _, List.mem_singleton_self _, Json.holdsAll_of_finds hforms hfinds⟩

/-- A shelf with labels, boxes and a height. -/
def labelledShelf : Object :=
  [("labels", .array [.string "dry", .string "new"]),
    ("boxes", .array [.object [("size", .ofInt64 1)], .object [("size", .ofInt64 2)]]),
    ("height", .ofInt64 1)]

/-- The number one as a binary64 number. -/
def floatOne : Json := .float (.power false 1022 (by decide))

theorem listed_conditions_shelf :
    labelledShelf.lookup "labels" = [.array [.string "dry", .string "new"]] ∧
    labelledShelf.meets [("labels", .single "$in" (.array [.string "dry", .null]))] = .ok true ∧
    (∃ c ∈ [.string "dry", .null], labelledShelf.meets [("labels", c)] = .ok true) ∧
    (labelledShelf.meets [("labels", .single "$all" (.array [.string "dry", .null]))] = .ok true ↔
      ∀ c ∈ [.string "dry", .null], labelledShelf.meets [("labels", c)] = .ok true) := by
  have hpath : "labels" ∉ connectives := by decide
  have hdata : ∀ c ∈ [Json.string "dry", .null], c.asObject? = none := by decide
  obtain ⟨hin, -, -, -, -, hall⟩ :=
    listed_conditions labelledShelf hpath hdata (List.cons_ne_nil _ _)
  refine ⟨rfl, rfl, hin.mp rfl, hall _ rfl fun c hc => ?_⟩
  have hno : c.asArray? = none ∧ c.isNumber = false := by
    simp only [List.mem_cons, List.not_mem_nil, or_false] at hc
    obtain rfl | rfl := hc <;> decide
  refine ⟨hno.1, fun item _ hsame => ?_⟩
  have hnumber := hsame.isNumber.2
  rw [hno.2] at hnumber
  cases hnumber

/-- Values that are found at different places, a number in another form and a value that is missing
are not found together. -/
theorem all_conditions_not_together :
    (∀ c ∈ [Json.ofInt64 1, .ofInt64 2], labelledShelf.meets [("boxes.size", c)] = .ok true) ∧
    labelledShelf.meets
      [("boxes.size", .single "$all" (.array [.ofInt64 1, .ofInt64 2]))] = .ok false ∧
    (∀ c ∈ [floatOne], labelledShelf.meets [("height", c)] = .ok true) ∧
    labelledShelf.meets [("height", .single "$all" (.array [floatOne]))] = .ok false ∧
    (∀ c ∈ [Json.null], labelledShelf.meets [("lid", c)] = .ok true) ∧
    labelledShelf.meets [("lid", .single "$all" (.array [.null]))] = .ok false := by
  decide +kernel

end DocumentMapper
