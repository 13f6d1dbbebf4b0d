import DocumentMapper.Document.DirtyPaths
import DocumentMapper.Text.Numeral

/-!
# Dotted paths and their segments

A dotted path is its list of segments, as long as no segment has a point in it. One path is above
another one when its segments begin those of the other.

## Main results

* `dottedSegments_dotted`: the segments of a dotted path are the ones it was made of;
* `isAbove_iff`: the order of paths is the prefix order of their segments;
* `position?_toString`: a position is read back from its digits.
-/

namespace DocumentMapper

namespace Text

/-- A text without a point, which is one segment of a path. -/
def IsSegment (s : String) : Prop :=
  '.' ∉ s.toList

instance (s : String) : Decidable (IsSegment s) :=
  inferInstanceAs (Decidable (¬ '.' ∈ s.toList))

/-! ### Cutting -/

/-- A text without the separator is one part. -/
theorem splitAtChar_of_not_mem {sep : Char} {cs : List Char} (h : sep ∉ cs) :
    splitAtChar sep cs = [cs] := by
  induction cs with
  | nil => rfl
  | cons c cs ih =>
    rw [List.mem_cons, not_or] at h
    obtain ⟨hc, hcs⟩ := h
    rw [splitAtChar, if_neg (Ne.symm hc), ih hcs]
    rfl

/-- A first character goes to the first part of the first text. -/
theorem consFirst_append (c : Char) {parts : List (List Char)} (h : parts ≠ [])
    (more : List (List Char)) : consFirst c (parts ++ more) = consFirst c parts ++ more := by
  cases parts with
  | nil => exact absurd rfl h
  | cons part parts => rfl

/-- Two texts with a separator between them are cut for themselves. -/
theorem splitAtChar_append (sep : Char) (cs ds : List Char) :
    splitAtChar sep (cs ++ sep :: ds) = splitAtChar sep cs ++ splitAtChar sep ds := by
  induction cs with
  | nil => simp [splitAtChar]
  | cons c cs ih =>
    by_cases hc : c = sep
    · simp [splitAtChar, hc, ih]
    · simp only [List.cons_append, splitAtChar, hc, ↓reduceIte, ih]
      exact consFirst_append c (splitAtChar_ne_nil sep cs) _

/-- Where the parts of one text begin those of another, and there are more of them, the text and a
separator begin the other. -/
theorem append_of_splitAtChar {sep : Char} {cs ds : List Char} {rest : List (List Char)}
    (hne : rest ≠ []) (h : splitAtChar sep ds = splitAtChar sep cs ++ rest) :
    ∃ es, ds = cs ++ sep :: es ∧ splitAtChar sep es = rest := by
  have hjoin : ∀ front : List (List Char), front ≠ [] →
      joinWith [sep] (front ++ rest) = joinWith [sep] front ++ sep :: joinWith [sep] rest := by
    intro front hfront
    induction front with
    | nil => exact absurd rfl hfront
    | cons part front ih =>
      cases front with
      | nil =>
        cases rest with
        | nil => exact absurd rfl hne
        | cons next more => simp [joinWith]
      | cons second front =>
        have := ih (List.cons_ne_nil second front)
        simp only [List.cons_append, joinWith] at this ⊢
        rw [this]
        simp
  have hds : ds = cs ++ sep :: joinWith [sep] rest := by
    rw [← joinWith_splitAtChar sep ds, h, hjoin _ (splitAtChar_ne_nil sep cs),
      joinWith_splitAtChar]
  refine ⟨joinWith [sep] rest, hds, ?_⟩
  have hsplit := splitAtChar_append sep cs (joinWith [sep] rest)
  rw [← hds, h] at hsplit
  exact (List.append_cancel_left hsplit).symm

/-! ### Beginnings -/

/-- What follows the beginning of a text. -/
theorem dropStart?_eq_some_iff {p s rest : String} :
    dropStart? p s = some rest ↔ s = p ++ rest := by
  unfold dropStart? beginsWith
  split
  · rename_i h
    obtain ⟨more, hmore⟩ := List.isPrefixOf_iff_prefix.mp h
    rw [← hmore, List.drop_left, Option.some.injEq]
    constructor
    · rintro rfl
      exact String.toList_injective (by simp [hmore])
    · rintro rfl
      have hlist := hmore.trans String.toList_append
      exact String.toList_injective (by simpa using hlist)
  · rename_i h
    refine iff_of_false (by simp) ?_
    rintro rfl
    exact h (List.isPrefixOf_iff_prefix.mpr (by simp))

/-! ### Segments -/

/-- A segment has no point. -/
theorem isSegment_of_mem_dottedSegments {path s : String} (h : s ∈ dottedSegments path) :
    IsSegment s := by
  obtain ⟨part, hpart, rfl⟩ := List.mem_map.mp h
  simpa [IsSegment] using not_mem_of_mem_splitAtChar hpart

/-- A dotted path has a first segment. -/
theorem dottedSegments_ne_nil (path : String) : dottedSegments path ≠ [] := by
  simp only [dottedSegments, ne_eq, List.map_eq_nil_iff]
  exact splitAtChar_ne_nil _ _

/-- A text without a point is its only segment. -/
theorem dottedSegments_of_isSegment {s : String} (h : IsSegment s) : dottedSegments s = [s] := by
  rw [dottedSegments, splitAtChar_of_not_mem h]
  simp

/-- Two paths with a point between them have the segments of both. -/
theorem dottedSegments_append (p q : String) :
    dottedSegments (p ++ "." ++ q) = dottedSegments p ++ dottedSegments q := by
  have hlist : (p ++ "." ++ q).toList = p.toList ++ '.' :: q.toList := by simp
  rw [dottedSegments, hlist, splitAtChar_append, List.map_append]
  rfl

/-- A path with one more segment. -/
theorem dottedSegments_below (path : String) {s : String} (hs : IsSegment s) :
    dottedSegments (path ++ "." ++ s) = dottedSegments path ++ [s] := by
  rw [dottedSegments_append, dottedSegments_of_isSegment hs]

theorem ne_empty_below (path s : String) : path ++ "." ++ s ≠ "" := by
  intro h
  have := congrArg String.toList h
  simp at this

/-- Positions that part at a segment have nothing below them in common. -/
theorem eq_of_prefix_concat {r m : List String} {s t : String} (hs : r ++ [s] <+: m)
    (ht : r ++ [t] <+: m) : s = t := by
  have h := List.prefix_of_prefix_length_le hs ht (by simp)
  simpa using h.eq_of_length (by simp)

/-- A path is determined by its segments. -/
theorem dottedSegments_injective {p q : String} (h : dottedSegments p = dottedSegments q) :
    p = q := by
  rw [← dotted_dottedSegments p, h, dotted_dottedSegments]

/-- A path made of a first segment and others has a point behind the first one. -/
theorem dotted_cons (s : String) {segments : List String} (hne : segments ≠ []) :
    dotted (s :: segments) = s ++ "." ++ dotted segments := by
  cases segments with
  | nil => exact absurd rfl hne
  | cons t segments =>
    apply String.toList_injective
    simp [dotted, joinStrings, joinWith]

@[simp] theorem dotted_singleton (s : String) : dotted [s] = s := by
  simp [dotted, joinStrings, joinWith]

/-- **The segments of a dotted path are the ones it was made of.** -/
theorem dottedSegments_dotted {segments : List String} (hne : segments ≠ [])
    (h : ∀ s ∈ segments, IsSegment s) : dottedSegments (dotted segments) = segments := by
  induction segments with
  | nil => exact absurd rfl hne
  | cons s segments ih =>
    obtain ⟨hs, hrest⟩ := List.forall_mem_cons.mp h
    cases segments with
    | nil => rw [dotted_singleton, dottedSegments_of_isSegment hs]
    | cons t segments =>
      rw [dotted_cons s (List.cons_ne_nil t segments), dottedSegments_append,
        dottedSegments_of_isSegment hs, ih (List.cons_ne_nil t segments) hrest]
      rfl

/-- A dotted path has the segments of the parts that it was made of. -/
theorem dottedSegments_dotted_parts {parts : List String} (hne : parts ≠ []) :
    dottedSegments (dotted parts) = parts.flatMap dottedSegments := by
  induction parts with
  | nil => exact absurd rfl hne
  | cons s parts ih =>
    cases parts with
    | nil => simp
    | cons t parts =>
      rw [dotted_cons s (List.cons_ne_nil t parts), dottedSegments_append,
        ih (List.cons_ne_nil t parts)]
      rfl

/-- Segments are their own segments. -/
theorem flatMap_dottedSegments {segments : List String} (h : ∀ s ∈ segments, IsSegment s) :
    segments.flatMap dottedSegments = segments := by
  induction segments with
  | nil => rfl
  | cons s segments ih =>
    obtain ⟨hs, hrest⟩ := List.forall_mem_cons.mp h
    rw [List.flatMap_cons, dottedSegments_of_isSegment hs, ih hrest]
    rfl

/-- A path made of two parts has a point between them. -/
theorem dotted_append {front rest : List String} (hfront : front ≠ []) (hrest : rest ≠ []) :
    dotted (front ++ rest) = dotted front ++ "." ++ dotted rest := by
  induction front with
  | nil => exact absurd rfl hfront
  | cons s front ih =>
    cases front with
    | nil => rw [List.singleton_append, dotted_cons s hrest, dotted_singleton]
    | cons t front =>
      have hne : t :: front ≠ [] := List.cons_ne_nil t front
      rw [List.cons_append, dotted_cons s (by simp), ih hne, dotted_cons s hne]
      simp [String.append_assoc]

/-! ### Positions -/

/-- The digits of a number have no point. -/
theorem isSegment_toString (n : Nat) : IsSegment (toString n) := by
  intro h
  have hdigits : (toString n).toList = Nat.toDigits 10 n := Nat.toList_repr
  rw [hdigits] at h
  exact absurd (Nat.isDigit_of_mem_toDigits (by decide) (by decide) h) (by decide)

/-- A number below the bound is read back from its digits. -/
theorem natural?_toString {bound n : Nat} (h : n < bound) :
    natural? bound (toString n).toList = some n := by
  have hdigits : (toString n).toList = Nat.toDigits 10 n := Nat.toList_repr
  have hall : ∀ c ∈ Nat.toDigits 10 n, c.isDigit = true := fun c hc =>
    Nat.isDigit_of_mem_toDigits (by decide) (by decide) hc
  have hvalue : ofDigits 0 (Nat.toDigits 10 n) = n := Nat.ofDigitChars_ten_toDigits
  have hisDigits : isDigits (Nat.toDigits 10 n) = true := by
    have hne : Nat.toDigits 10 n ≠ [] := Nat.toDigits_ne_nil
    simp only [isDigits, Bool.and_eq_true, Bool.not_eq_true', List.isEmpty_eq_false_iff,
      List.all_eq_true]
    exact ⟨hne, hall⟩
  have hplus : ∀ rest, Nat.toDigits 10 n = '+' :: rest → False := fun rest heq =>
    absurd (hall '+' (heq ▸ List.mem_cons_self)) (by decide)
  rw [hdigits, natural?]
  · simp only [hisDigits, hvalue, h, decide_true, Bool.and_self, ↓reduceIte]
  · exact hplus

/-- **A position is read back from its digits.** -/
theorem position?_toString {n : Nat} (h : n < Number.wordCount) :
    position? (toString n) = some n :=
  natural?_toString h

/-- Different positions have different digits. -/
theorem toString_injective {m n : Nat} (h : toString m = toString n) : m = n := by
  have hm : (toString m).toList = Nat.toDigits 10 m := Nat.toList_repr
  have hn : (toString n).toList = Nat.toDigits 10 n := Nat.toList_repr
  have hm' : ofDigits 0 (Nat.toDigits 10 m) = m := Nat.ofDigitChars_ten_toDigits
  have hn' : ofDigits 0 (Nat.toDigits 10 n) = n := Nat.ofDigitChars_ten_toDigits
  rw [← hm', ← hm, h, hn, hn']

end Text

open Text

/-! ### The order of paths -/

/-- **A path is above another one exactly when its segments begin those of the other**, which has
more of them. -/
theorem isAbove_iff {p q : String} :
    isAbove p q = true ↔ ∃ rest, rest ≠ [] ∧ dottedSegments q = dottedSegments p ++ rest := by
  rw [isAbove, List.isPrefixOf_iff_prefix]
  constructor
  · rintro ⟨more, hmore⟩
    have hq : q = p ++ "." ++ String.ofList more := by
      apply String.toList_injective
      simp [← hmore]
    refine ⟨dottedSegments (String.ofList more), dottedSegments_ne_nil _, ?_⟩
    rw [hq, dottedSegments_append]
  · rintro ⟨rest, hne, hrest⟩
    have hparts : splitAtChar '.' q.toList =
        splitAtChar '.' p.toList ++ rest.map String.toList := by
      have := congrArg (List.map String.toList) hrest
      simpa [dottedSegments, List.map_map, Function.comp_def] using this
    obtain ⟨es, hes, -⟩ := append_of_splitAtChar (by simpa using hne) hparts
    exact ⟨es, by simp [hes]⟩

/-- A path or one above it. -/
theorem eq_or_isAbove_iff {p q : String} :
    (p == q || isAbove p q) = true ↔ dottedSegments p <+: dottedSegments q := by
  rw [Bool.or_eq_true, beq_iff_eq, isAbove_iff]
  constructor
  · rintro (rfl | ⟨rest, -, hrest⟩)
    · exact List.prefix_refl _
    · exact ⟨rest, hrest.symm⟩
  · rintro ⟨rest, hrest⟩
    by_cases hne : rest = []
    · left
      subst hne
      rw [List.append_nil] at hrest
      exact dottedSegments_injective hrest
    · exact .inr ⟨rest, hne, hrest.symm⟩

end DocumentMapper
