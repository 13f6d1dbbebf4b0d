import DocumentMapper.Pattern.Reader
import DocumentMapper.Proofs.PatternSearch

/-!
# Literal patterns

An escaped text is read back as its characters, one after the other, whatever they mean in patterns
otherwise. So the pattern of a text, with or without anchors around it, is a row of characters and
anchors, and where it spans can be told from the text alone.

## Main results

* `readGroup_escaped`: an escaped text is read as its characters;
* `read?_row`: the pattern of an escaped text between anchors, within the limit of its size;
* `spans_chain_iff`: a row of patterns spans what they span one behind the other;
* `inRow_literal_iff`: characters span a part of a text exactly where it begins with them.
-/

namespace DocumentMapper.Pattern

/-! ### Rows of patterns -/

/-- Patterns one behind the other. -/
def chain : List Node → Node
  | [] => .empty
  | [n] => n
  | n :: m :: rest => .seq n (chain (m :: rest))

/-- The patterns of some characters, which mean themselves. -/
def literal (cs : List Char) : List Node :=
  cs.map fun c => .char (.single c)

/-- The items of a sequence, the last one first. -/
def itemsOfRow (row : List Node) : List Item :=
  (row.map fun n => ⟨n, true⟩).reverse

/-- The sequence that is read is the row of its items. -/
theorem sequence_itemsOfRow (row : List Node) : sequence (itemsOfRow row) = chain row := by
  induction row with
  | nil => rfl
  | cons n rest ih =>
    cases rest with
    | nil => rfl
    | cons m rest =>
      have hsplit : itemsOfRow (n :: m :: rest) = itemsOfRow (m :: rest) ++ [⟨n, true⟩] := by
        simp [itemsOfRow]
      obtain ⟨last, earlier, hitems⟩ : ∃ last earlier, itemsOfRow (m :: rest) = last :: earlier :=
        List.exists_cons_of_ne_nil (by simp [itemsOfRow])
      rw [hitems] at ih
      rw [hsplit, hitems, List.cons_append, sequence, List.foldl_append, chain, ← ih]
      rfl

/-- Patterns span a part of a text in a row. -/
def InRow (s : Subject) : List Node → Nat → Nat → Prop
  | [], i, k => i = k
  | n :: rest, i, k => ∃ j, n.Spans s i j ∧ InRow s rest j k

section

variable {s : Subject} {i k : Nat}

theorem inRow_append {row more : List Node} :
    InRow s (row ++ more) i k ↔ ∃ j, InRow s row i j ∧ InRow s more j k := by
  induction row generalizing i with
  | nil => simp [InRow]
  | cons n rest ih =>
    simp only [List.cons_append, InRow, ih]
    constructor
    · rintro ⟨j, hfirst, l, hrest, hmore⟩
      exact ⟨l, ⟨j, hfirst, hrest⟩, hmore⟩
    · rintro ⟨l, ⟨j, hfirst, hrest⟩, hmore⟩
      exact ⟨j, hfirst, l, hrest, hmore⟩

/-- **A row of patterns spans what they span one behind the other.** -/
theorem spans_chain_iff {row : List Node} : (chain row).Spans s i k ↔ InRow s row i k := by
  induction row generalizing i with
  | nil =>
    constructor
    · rintro ⟨⟩
      rfl
    · rintro rfl
      exact .empty i
  | cons n rest ih =>
    cases rest with
    | nil => simp [chain, InRow]
    | cons m rest =>
      rw [chain, InRow]
      constructor
      · rintro (_ | _ | _ | ⟨hfirst, hrest⟩)
        exact ⟨_, hfirst, ih.mp hrest⟩
      · rintro ⟨j, hfirst, hrest⟩
        exact .seq hfirst (ih.mpr hrest)

end

section

variable {cs : List Char} {i k : Nat}

theorem spans_single_iff {s : Subject} {c : Char} :
    (Node.char (.single c)).Spans s i k ↔ s.chars[i]? = some c ∧ k = i + 1 := by
  constructor
  · rintro (_ | ⟨hc, hset⟩)
    rw [CharSet.contains_single, beq_iff_eq] at hset
    exact ⟨hset ▸ hc, rfl⟩
  · rintro ⟨hc, rfl⟩
    exact .char hc (by simp)

/-- **Characters span a part of a text exactly where it begins with them.** -/
theorem inRow_literal_iff {s : Subject} {operand : List Char} :
    InRow s (literal operand) i k ↔ operand <+: s.chars.drop i ∧ k = i + operand.length := by
  induction operand generalizing i with
  | nil => simp [literal, InRow, eq_comm]
  | cons c rest ih =>
    have hrow : literal (c :: rest) = .char (.single c) :: literal rest := rfl
    rw [hrow, InRow]
    simp only [spans_single_iff, ih]
    constructor
    · rintro ⟨j, ⟨hc, rfl⟩, hbegins, rfl⟩
      obtain ⟨hlt, rfl⟩ := List.getElem?_eq_some_iff.mp hc
      rw [List.drop_eq_getElem_cons hlt, List.cons_prefix_cons]
      exact ⟨⟨rfl, hbegins⟩, by simp only [List.length_cons]; omega⟩
    · rintro ⟨hbegins, rfl⟩
      have hlt : i < s.chars.length := by
        have hle := hbegins.length_le
        simp only [List.length_cons, List.length_drop] at hle
        omega
      rw [List.drop_eq_getElem_cons hlt, List.cons_prefix_cons] at hbegins
      refine ⟨i + 1, ⟨?_, rfl⟩, hbegins.2, by simp only [List.length_cons]; omega⟩
      rw [List.getElem?_eq_getElem hlt, hbegins.1]

/-- The neighbours of a place are missing at the two ends of the text. -/
theorem sides_isNone {side : Option Char × Option Char}
    (h : (Subject.ofChars cs).sides[i]? = some side) :
    (side.1.isNone = true ↔ i = 0) ∧ (side.2.isNone = true ↔ i = cs.length) := by
  rw [Subject.ofChars, List.getElem?_zip_eq_some] at h
  obtain ⟨hbefore, hafter⟩ := h
  constructor
  · cases i with
    | zero => simpa using hbefore.symm
    | succ i => grind
  · grind

/-- An assertion that asks for an end of the text spans nothing but that place. -/
theorem spans_assertion_iff {a : Assertion} {place : Nat} (hi : i ≤ cs.length)
    (hplace : ∀ side, (Subject.ofChars cs).sides[i]? = some side →
      (a.holds side.1 side.2 = true ↔ i = place)) :
    (Node.assertion a).Spans (.ofChars cs) i k ↔ i = place ∧ k = place := by
  constructor
  · rintro (_ | _ | ⟨hside, hholds⟩)
    have hi := (hplace _ hside).mp hholds
    exact ⟨hi, hi⟩
  · rintro ⟨heq, hk⟩
    have hlt : i < (Subject.ofChars cs).sides.length := by
      rw [Subject.length_sides]
      omega
    have hside := List.getElem?_eq_getElem hlt
    rw [hk, ← heq]
    exact .assertion hside ((hplace _ hside).mpr heq)

/-- The start of a text is the place with nothing in front of it. -/
theorem spans_textStart_iff (hi : i ≤ cs.length) :
    (Node.assertion .textStart).Spans (.ofChars cs) i k ↔ i = 0 ∧ k = 0 :=
  spans_assertion_iff hi fun _ h => (sides_isNone h).1

/-- The end of a text is the place with nothing behind it. -/
theorem spans_textEnd_iff (hi : i ≤ cs.length) :
    (Node.assertion .textEnd).Spans (.ofChars cs) i k ↔ i = cs.length ∧ k = cs.length :=
  spans_assertion_iff hi fun _ h => (sides_isNone h).2

end

/-! ### Reading escaped texts -/

/-- What is read of a pattern without flags, groups and alternatives. -/
def progressOf (row : List Node) : Progress :=
  ⟨{}, [], [], itemsOfRow row⟩

theorem push_progressOf (row : List Node) (n : Node) :
    (progressOf row).push n = progressOf (row ++ [n]) := by
  simp [progressOf, Progress.push, itemsOfRow]

/-- A text in front of whose characters stands a backslash, where they have a meaning. -/
def escapeChars (cs : List Char) : List Char :=
  cs.flatMap fun c => if isMeta c then ['\\', c] else [c]

section

variable {row : List Node} {c : Char} {fuel : Nat} {rest : List Char}

/-- A character without a meaning means itself. -/
theorem readGroup_plain (h : isMeta c = false) :
    readGroup false (fuel + 1) (progressOf row) (c :: rest) =
      readGroup false fuel (progressOf (row ++ [.char (.single c)])) rest := by
  have hne : ∀ d, isMeta d = true → c ≠ d := by
    rintro d hd rfl
    rw [h] at hd
    cases hd
  have hnode : plainNode? (progressOf row).flags c = some (.char (.single c)) := by
    rw [plainNode?, if_neg (hne _ (by decide)), if_neg (hne _ (by decide)),
      if_neg (hne _ (by decide))]
    rfl
  have hskip : (progressOf row).flags.skip (c :: rest) = c :: rest := rfl
  rw [← push_progressOf, readGroup, hskip]
  split
  case h_11 heq =>
    obtain ⟨rfl, rfl⟩ := List.cons.inj heq
    rw [hnode]
    rfl
  case h_1 heq => cases heq
  all_goals
    rename_i heq
    exact absurd (List.cons.inj heq).1 (hne _ (by decide))

/-- A character with a backslash in front of it means itself. -/
theorem readGroup_meta (h : isMeta c = true) :
    readGroup false (fuel + 1) (progressOf row) ('\\' :: c :: rest) =
      readGroup false fuel (progressOf (row ++ [.char (.single c)])) rest := by
  have hne : ∀ d, isMeta d = false → c ≠ d := by
    rintro d hd rfl
    rw [h] at hd
    cases hd
  have hescape : readEscape (progressOf row).flags (c :: rest) = some (.literal c, rest) := by
    have hcode : ¬ (c = 'x' ∨ c = 'u' ∨ c = 'U') := by
      rintro (rfl | rfl | rfl) <;> exact absurd h (by decide)
    have hproperty : ¬ (c = 'p' ∨ c = 'P') := by
      rintro (rfl | rfl) <;> exact absurd h (by decide)
    rw [readEscape, if_neg hcode, if_neg hproperty, if_pos (by simp [isEscapable, h])]
  have hskip : (progressOf row).flags.skip ('\\' :: c :: rest) = '\\' :: c :: rest := rfl
  rw [← push_progressOf, readGroup, hskip]
  simp only [hescape]
  rfl

/-- **An escaped text is read as its characters.** -/
theorem readGroup_escaped (operand : List Char) :
    readGroup false (operand.length + fuel) (progressOf row) (escapeChars operand ++ rest) =
      readGroup false fuel (progressOf (row ++ literal operand)) rest := by
  induction operand generalizing row with
  | nil => simp [escapeChars, literal]
  | cons c operand ih =>
    have hfuel : (c :: operand).length + fuel = operand.length + fuel + 1 := by
      simp only [List.length_cons]
      omega
    have hrow : row ++ literal (c :: operand) = row ++ [.char (.single c)] ++ literal operand := by
      simp [literal]
    rw [hfuel, hrow, ← ih]
    by_cases hmeta : isMeta c = true
    · have htext : escapeChars (c :: operand) ++ rest =
          '\\' :: c :: (escapeChars operand ++ rest) := by
        simp [escapeChars, hmeta]
      rw [htext, readGroup_meta hmeta]
    · have htext : escapeChars (c :: operand) ++ rest = c :: (escapeChars operand ++ rest) := by
        simp [escapeChars, hmeta]
      rw [htext, readGroup_plain (by simpa using hmeta)]

/-- At the end of a pattern everything is read. -/
theorem readGroup_nil (fuel : Nat) (row : List Node) :
    readGroup false (fuel + 1) (progressOf row) [] = some (chain row, [], []) := by
  rw [← sequence_itemsOfRow]
  rfl

end

/-! ### Patterns of texts -/

/-- The anchors around the characters of a pattern. -/
structure Anchors where
  atStart : Bool
  atEnd : Bool

/-- What stands at one end of a pattern, if there is an anchor. -/
def anchor {α : Type} (isAnchored : Bool) (x : α) : List α :=
  if isAnchored then [x] else []

namespace Anchors

/-- A pattern with the anchors around it. -/
def around (a : Anchors) (body : List Char) : List Char :=
  anchor a.atStart '^' ++ (body ++ anchor a.atEnd '$')

/-- The row of a text with the anchors around it. -/
def row (a : Anchors) (operand : List Char) : List Node :=
  anchor a.atStart (.assertion .textStart) ++ literal operand ++
    anchor a.atEnd (.assertion .textEnd)

/-- A text has the operand where the anchors ask for it. -/
def Holds (a : Anchors) (operand text : List Char) : Prop :=
  ∃ before after, text = before ++ operand ++ after ∧ (a.atStart = true → before = []) ∧
    (a.atEnd = true → after = [])

end Anchors

section

variable {row : List Node} {fuel : Nat} {rest : List Char} {isAnchored : Bool}

/-- An anchor at the start is read as its assertion. -/
theorem readGroup_atStart :
    readGroup false ((anchor isAnchored '^').length + fuel) (progressOf row)
        (anchor isAnchored '^' ++ rest) =
      readGroup false fuel (progressOf (row ++ anchor isAnchored (.assertion .textStart))) rest := by
  cases isAnchored with
  | false => simp [anchor]
  | true =>
    rw [anchor, if_pos rfl, anchor, if_pos rfl, ← push_progressOf, List.length_singleton,
      Nat.add_comm]
    rfl

/-- An anchor at the end is read as its assertion, and then everything is read. -/
theorem readGroup_atEnd :
    readGroup false ((anchor isAnchored '$').length + (fuel + 1)) (progressOf row)
        (anchor isAnchored '$') =
      some (chain (row ++ anchor isAnchored (.assertion .textEnd)), [], []) := by
  cases isAnchored with
  | false =>
    rw [anchor, if_neg (by decide), List.length_nil, Nat.zero_add, readGroup_nil]
    simp [anchor]
  | true =>
    rw [anchor, if_pos rfl, anchor, if_pos rfl, List.length_singleton, Nat.add_comm,
      ← readGroup_nil fuel, ← push_progressOf]
    rfl

/-- How many tests a row has. -/
theorem weight_chain {row : List Node} (h : ∀ n ∈ row, n.weight = 1) :
    (chain row).weight = max 1 row.length := by
  induction row with
  | nil => rfl
  | cons n rest ih =>
    obtain ⟨hn, hrest⟩ := List.forall_mem_cons.mp h
    cases rest with
    | nil => exact hn
    | cons m rest =>
      have hsum : (chain (n :: m :: rest)).weight = n.weight + (chain (m :: rest)).weight := rfl
      rw [hsum, hn, ih hrest]
      simp only [List.length_cons, Nat.max_def]
      split <;> split <;> omega

end

section

variable {a : Anchors} {operand : List Char}

theorem Anchors.weight_of_mem {n : Node} (h : n ∈ a.row operand) : n.weight = 1 := by
  simp only [row, anchor, literal, List.mem_append, List.mem_map] at h
  rcases h with (h | ⟨c, -, rfl⟩) | h
  · split at h
    · obtain rfl := List.mem_singleton.mp h
      rfl
    · cases h
  · rfl
  · split at h
    · obtain rfl := List.mem_singleton.mp h
      rfl
    · cases h

theorem length_le_escapeChars (operand : List Char) :
    operand.length ≤ (escapeChars operand).length := by
  induction operand with
  | nil => exact Nat.le_refl _
  | cons c operand ih =>
    have hpos : 1 ≤ (if isMeta c then ['\\', c] else [c]).length := by
      split <;> simp
    have hcons : (escapeChars (c :: operand)).length =
        (if isMeta c then ['\\', c] else [c]).length + (escapeChars operand).length := by
      simp [escapeChars]
    rw [hcons, List.length_cons]
    omega

/-- **The pattern of an escaped text between anchors is the row of its characters and the anchors**,
as long as that is within the limit of the size. -/
theorem read?_row (hsize : (a.row operand).length ≤ weightLimit) :
    read? false (String.ofList (a.around (escapeChars operand))) = some (chain (a.row operand)) := by
  -- Each part of the row takes one unit of fuel and at least one character of the text.
  obtain ⟨spare, hspare⟩ := Nat.exists_eq_add_of_le (length_le_escapeChars operand)
  have hfuel : (a.around (escapeChars operand)).length + 1 =
      (anchor a.atStart '^').length + (operand.length +
        ((anchor a.atEnd '$').length + (spare + 1))) := by
    simp only [Anchors.around, List.length_append]
    omega
  have hread : readGroup false ((a.around (escapeChars operand)).length + 1) (progressOf [])
      (a.around (escapeChars operand)) = some (chain (a.row operand), [], []) := by
    rw [hfuel, Anchors.around, readGroup_atStart, readGroup_escaped, readGroup_atEnd,
      List.nil_append]
    rfl
  have hweight : (chain (a.row operand)).weight ≤ weightLimit := by
    rw [weight_chain fun n hn => a.weight_of_mem hn, Nat.max_def]
    split
    · exact hsize
    · decide
  have hstart : progressOf [] = ⟨{}, [], [], []⟩ := rfl
  rw [hstart] at hread
  simp only [read?, String.toList_ofList, hread, Option.bind_eq_bind, Option.bind_some,
    if_pos hweight]

/-- An anchor leads on from its end of the text only, and nothing leads anywhere. -/
theorem inRow_anchor_iff {cs : List Char} {isAnchored : Bool} {x : Assertion} {i k place : Nat}
    (h : (Node.assertion x).Spans (.ofChars cs) i k ↔ i = place ∧ k = place) :
    InRow (.ofChars cs) (anchor isAnchored (.assertion x)) i k ↔
      i = k ∧ (isAnchored = true → i = place) := by
  cases isAnchored with
  | false => simp [anchor, InRow]
  | true =>
    simp only [anchor, if_pos, InRow, exists_eq_right, h, forall_const]
    constructor
    · rintro ⟨rfl, rfl⟩
      exact ⟨rfl, rfl⟩
    · rintro ⟨rfl, rfl⟩
      exact ⟨rfl, rfl⟩

/-- **A row of characters and anchors is found where the text has the characters** as the anchors ask
for it. -/
theorem search_row_iff {text : String} :
    (chain (a.row operand)).search text = true ↔ a.Holds operand text.toList := by
  rw [Node.search_iff]
  simp only [spans_chain_iff, Anchors.row, inRow_append, inRow_literal_iff]
  constructor
  · rintro ⟨i, k, hi, j, ⟨l, hfirst, hbegins, rfl⟩, hlast⟩
    obtain ⟨rfl, hstart⟩ := (inRow_anchor_iff (spans_textStart_iff hi)).mp hfirst
    have hj : i + operand.length ≤ text.toList.length := by
      have hle := hbegins.length_le
      simp only [Subject.ofChars, List.length_drop] at hle
      omega
    obtain ⟨rfl, hend⟩ := (inRow_anchor_iff (spans_textEnd_iff hj)).mp hlast
    obtain ⟨after, hafter⟩ := hbegins
    have htext : text.toList = text.toList.take i ++ operand ++ after := by
      rw [List.append_assoc, hafter]
      exact (List.take_append_drop i _).symm
    refine ⟨text.toList.take i, after, htext, fun h => ?_, fun h => ?_⟩
    · rw [hstart h, List.take_zero]
    · have hlength := congrArg List.length htext
      simp only [List.length_append, List.length_take] at hlength
      have := hend h
      exact List.length_eq_zero_iff.mp (by omega)
  · rintro ⟨before, after, htext, hstart, hend⟩
    have hlength := congrArg List.length htext
    simp only [List.length_append] at hlength
    have hbefore : before.length ≤ text.toList.length := by omega
    have hboth : before.length + operand.length ≤ text.toList.length := by omega
    refine ⟨before.length, before.length + operand.length, hbefore,
      before.length + operand.length, ⟨before.length, ?_, ?_, rfl⟩, ?_⟩
    · exact (inRow_anchor_iff (spans_textStart_iff hbefore)).mpr
        ⟨rfl, fun h => by rw [hstart h, List.length_nil]⟩
    · have hdrop : text.toList.drop before.length = operand ++ after := by
        rw [htext, List.append_assoc, List.drop_left]
      exact hdrop ▸ List.prefix_append operand after
    · refine (inRow_anchor_iff (spans_textEnd_iff hboth)).mpr ⟨rfl, fun h => ?_⟩
      rw [hend h, List.length_nil] at hlength
      omega

end

end DocumentMapper.Pattern
