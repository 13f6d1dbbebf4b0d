import DocumentMapper.Proofs.DottedPaths

/-!
# Recorded paths by their segments

A record of changed paths covers a position when one of its paths leads to the position or to
something above it. Marking a path never uncovers anything: a path is dropped only when one above it
takes its place.

What is above a path can be told in two ways: by cutting the path in front of each of its points, and
by comparing its beginning with the other path and a point. A record asks the first way what it
covers, and the second way what a mark drops. The texts decide, so leading, trailing and doubled
points cut a path into empty segments and nothing else is special about them.

## Main results

* `isAbove_iff_mem_ancestors`: the two ways of telling what is above a path agree;
* `DirtyPaths.covers_iff`: what the record says about a path, by segments;
* `DirtyPaths.keeps_mark`: marking keeps what was covered;
* `DirtyPaths.antichain_markAll`: no recorded path is above another one.
-/

namespace DocumentMapper

open Text

/-! ### What is above a path -/

namespace Text

theorem mem_beginnings_iff {sep : Char} {front cs : List Char} :
    front ∈ beginnings sep cs ↔ ∃ back, cs = front ++ sep :: back := by
  induction cs generalizing front with
  | nil => simp [beginnings]
  | cons c cs ih =>
    cases front with
    | nil => by_cases hc : c = sep <;> simp [beginnings, hc]
    | cons f front =>
      have hlonger : f :: front ∈ (beginnings sep cs).map (c :: ·) ↔
          c = f ∧ front ∈ beginnings sep cs := by
        rw [List.mem_map]
        constructor
        · rintro ⟨rest, hrest, ⟨⟩⟩
          exact ⟨rfl, hrest⟩
        · rintro ⟨rfl, hfront⟩
          exact ⟨front, hfront, rfl⟩
      have hmem : f :: front ∈ beginnings sep (c :: cs) ↔ c = f ∧ front ∈ beginnings sep cs := by
        by_cases hc : c = sep
        · rw [beginnings, if_pos hc, List.mem_cons, ← hlonger]
          exact or_iff_right (List.cons_ne_nil f front)
        · rw [beginnings, if_neg hc, hlonger]
      rw [hmem, ih]
      simp

end Text

/-- **The ancestors of a path are the paths above it**: its beginnings, with a point behind them. -/
theorem isAbove_iff_mem_ancestors {p q : String} : isAbove p q = true ↔ p ∈ ancestors q := by
  have hmem : p ∈ ancestors q ↔ p.toList ∈ beginnings '.' q.toList := by
    simp only [ancestors, List.mem_map]
    constructor
    · rintro ⟨front, hfront, rfl⟩
      rwa [String.toList_ofList]
    · intro hfront
      exact ⟨p.toList, hfront, String.ofList_toList⟩
  rw [hmem, mem_beginnings_iff, isAbove, List.isPrefixOf_iff_prefix]
  constructor
  · rintro ⟨back, hback⟩
    exact ⟨back, by rw [← hback, List.append_assoc, List.singleton_append]⟩
  · rintro ⟨back, hback⟩
    exact ⟨back, by rw [hback, List.append_assoc, List.singleton_append]⟩

/-- The segments of a path begin those of another one that is the same or below. -/
theorem prefix_iff_mem_ancestors {p q : String} :
    dottedSegments p <+: dottedSegments q ↔ p = q ∨ p ∈ ancestors q := by
  rw [← eq_or_isAbove_iff, Bool.or_eq_true, beq_iff_eq, isAbove_iff_mem_ancestors]

/-! ### Positions -/

/-- One of two paths leads to the other or to something above it. -/
def Meets (p q : List String) : Prop :=
  p <+: q ∨ q <+: p

theorem Meets.of_append {p q q' : List String} (h : Meets p (q ++ q')) : Meets p q := by
  rcases h with h | h
  · exact List.prefix_or_prefix_of_prefix h (List.prefix_append q q')
  · exact .inr ((List.prefix_append q q').trans h)

theorem meets_append_iff (r : List String) {p q : List String} :
    Meets (r ++ p) (r ++ q) ↔ Meets p q := by
  simp [Meets, List.prefix_append_right_inj]

namespace DirtyPaths

/-- The recorded paths by their segments. -/
def segments (d : DirtyPaths) : List (List String) :=
  d.paths.map dottedSegments

/-- A recorded path leads to a position or to something above it. -/
def Covered (d : DirtyPaths) (r : List String) : Prop :=
  ∃ m ∈ d.segments, m <+: r

/-- Everything that one record covers is covered by another one. -/
def Keeps (d d' : DirtyPaths) : Prop :=
  ∀ m ∈ d.segments, d'.Covered m

/-- No recorded path is above another one. -/
def Antichain (d : DirtyPaths) : Prop :=
  ∀ m ∈ d.segments, ∀ m' ∈ d.segments, m <+: m' → m = m'

@[simp] theorem segments_empty : empty.segments = [] := rfl

theorem mem_segments {d : DirtyPaths} {m : List String} :
    m ∈ d.segments ↔ ∃ path ∈ d.paths, dottedSegments path = m := by
  simp [segments]

/-- A recorded path is made of segments. -/
theorem isSegment_of_mem {d : DirtyPaths} {m : List String} (h : m ∈ d.segments) :
    ∀ s ∈ m, IsSegment s := by
  obtain ⟨path, -, rfl⟩ := mem_segments.mp h
  exact fun s hs => isSegment_of_mem_dottedSegments hs

/-- A recorded path has a first segment. -/
theorem ne_nil_of_mem {d : DirtyPaths} {m : List String} (h : m ∈ d.segments) : m ≠ [] := by
  obtain ⟨path, -, rfl⟩ := mem_segments.mp h
  exact dottedSegments_ne_nil path

/-! ### What is covered -/

/-- **The record covers a path exactly when it covers its segments.** -/
theorem covers_iff {d : DirtyPaths} {path : String} :
    d.covers path = true ↔ d.Covered (dottedSegments path) := by
  simp only [covers, contains, Bool.or_eq_true, List.any_eq_true, List.contains_iff_mem, Covered,
    mem_segments]
  constructor
  · rintro (hp | ⟨p, habove, hp⟩)
    · exact ⟨_, ⟨path, hp, rfl⟩, List.prefix_refl _⟩
    · exact ⟨_, ⟨p, hp, rfl⟩, prefix_iff_mem_ancestors.mpr (.inr habove)⟩
  · rintro ⟨m, ⟨p, hp, rfl⟩, hprefix⟩
    rcases prefix_iff_mem_ancestors.mp hprefix with rfl | habove
    · exact .inl hp
    · exact .inr ⟨p, habove, hp⟩

@[simp] theorem not_covered_empty (r : List String) : ¬ empty.Covered r := by
  simp [Covered]

/-- What stands below something covered is covered. -/
theorem Covered.below {d : DirtyPaths} {r s : List String} (h : d.Covered r) (hrs : r <+: s) :
    d.Covered s := by
  obtain ⟨m, hm, hmr⟩ := h
  exact ⟨m, hm, hmr.trans hrs⟩

/-- A record keeps what it covers itself. -/
theorem Keeps.refl (d : DirtyPaths) : d.Keeps d :=
  fun m hm => ⟨m, hm, List.prefix_refl m⟩

/-- A record that keeps what another one covers, keeps each position covered. -/
theorem Keeps.covered {d d' : DirtyPaths} (h : d.Keeps d') {r : List String} (hr : d.Covered r) :
    d'.Covered r := by
  obtain ⟨m, hm, hmr⟩ := hr
  exact (h m hm).below hmr

theorem Keeps.trans {d d' d'' : DirtyPaths} (h : d.Keeps d') (h' : d'.Keeps d'') : d.Keeps d'' :=
  fun m hm => h'.covered (h m hm)

/-! ### Marking -/

/-- A marked path is covered. -/
theorem covered_mark_self (d : DirtyPaths) {path : String} (h : path ≠ "") :
    (d.mark path).Covered (dottedSegments path) :=
  covers_iff.mp (covers_mark_self d (by simpa using h))

/-- Marking records no other path than the marked one. -/
theorem mem_segments_mark {d : DirtyPaths} {path : String} {m : List String}
    (h : m ∈ (d.mark path).segments) : m ∈ d.segments ∨ m = dottedSegments path := by
  unfold mark at h
  split at h
  · exact .inl h
  · obtain ⟨p, hp, rfl⟩ := mem_segments.mp h
    rcases mem_insertOrdered.mp hp with rfl | hp
    · exact .inr rfl
    · exact .inl (mem_segments.mpr ⟨p, (List.mem_filter.mp hp).1, rfl⟩)

/-- **Marking keeps what was covered.** -/
theorem keeps_mark (d : DirtyPaths) (path : String) : d.Keeps (d.mark path) := by
  intro m hm
  unfold mark
  split
  · exact ⟨m, hm, List.prefix_refl m⟩
  · obtain ⟨p, hp, rfl⟩ := mem_segments.mp hm
    by_cases habove : isAbove path p = true
    · -- The path is dropped, and the marked one above it covers it.
      refine ⟨dottedSegments path, mem_segments.mpr ⟨path, mem_insertOrdered.mpr (.inl rfl), rfl⟩, ?_⟩
      obtain ⟨rest, -, hrest⟩ := isAbove_iff.mp habove
      exact ⟨rest, hrest.symm⟩
    · refine ⟨dottedSegments p, mem_segments.mpr ⟨p, mem_insertOrdered.mpr (.inr ?_), rfl⟩,
        List.prefix_refl _⟩
      exact List.mem_filter.mpr ⟨hp, by simpa using habove⟩

/-- Putting a path in its place loses and adds no other path. -/
theorem perm_insertOrdered (path : String) (paths : List String) :
    (insertOrdered path paths).Perm (path :: paths) := by
  induction paths with
  | nil => exact .refl _
  | cons p rest ih =>
    unfold insertOrdered
    split
    · exact .refl _
    · exact (ih.cons p).trans (.swap path p rest)

/-- Marking records no path twice. -/
theorem nodup_mark {d : DirtyPaths} (h : d.paths.Nodup) (path : String) :
    (d.mark path).paths.Nodup := by
  unfold mark
  split
  · exact h
  · rename_i hnew
    have huncovered : path ∉ d.paths := by
      intro hmem
      refine hnew ?_
      rw [Bool.or_eq_true]
      exact .inr (covers_of_mem hmem)
    refine ((perm_insertOrdered _ _).nodup_iff).mpr (List.nodup_cons.mpr ⟨fun hmem => ?_, ?_⟩)
    · exact huncovered (List.mem_filter.mp hmem).1
    · exact h.filter _

@[simp] theorem antichain_empty : empty.Antichain := by
  simp [Antichain]

/-- Marking leaves no recorded path above another one. -/
theorem antichain_mark {d : DirtyPaths} (h : d.Antichain) (path : String) :
    (d.mark path).Antichain := by
  unfold mark
  split
  · exact h
  · rename_i hnew
    rw [Bool.not_eq_true, Bool.or_eq_false_iff] at hnew
    have huncovered : ¬ d.Covered (dottedSegments path) := by
      rw [← covers_iff, hnew.2]
      exact Bool.false_ne_true
    intro m hm m' hm' hprefix
    obtain ⟨p, hp, rfl⟩ := mem_segments.mp hm
    obtain ⟨p', hp', rfl⟩ := mem_segments.mp hm'
    rcases mem_insertOrdered.mp hp with rfl | hp <;> rcases mem_insertOrdered.mp hp' with rfl | hp'
    · rfl
    · -- The paths below the marked one were dropped.
      obtain ⟨hmem, hkept⟩ := List.mem_filter.mp hp'
      have hor := eq_or_isAbove_iff.mpr hprefix
      simp only [Bool.not_eq_true'] at hkept
      rw [hkept, Bool.or_false, beq_iff_eq] at hor
      rw [hor]
    · exact absurd ⟨_, mem_segments.mpr ⟨p, (List.mem_filter.mp hp).1, rfl⟩, hprefix⟩ huncovered
    · exact h _ (mem_segments.mpr ⟨p, (List.mem_filter.mp hp).1, rfl⟩) _
        (mem_segments.mpr ⟨p', (List.mem_filter.mp hp').1, rfl⟩) hprefix

/-! ### Marking several paths -/

/-- Marking several paths keeps what was covered. -/
theorem keeps_markAll (d : DirtyPaths) (paths : List String) : d.Keeps (d.markAll paths) := by
  induction paths generalizing d with
  | nil => exact .refl d
  | cons path rest ih => exact (d.keeps_mark path).trans (ih (d.mark path))

/-- Marking several paths records no other ones. -/
theorem mem_segments_markAll {d : DirtyPaths} {paths : List String} {m : List String}
    (h : m ∈ (d.markAll paths).segments) :
    m ∈ d.segments ∨ ∃ path ∈ paths, m = dottedSegments path := by
  induction paths generalizing d with
  | nil => exact .inl h
  | cons path rest ih =>
    rcases ih h with h | ⟨p, hp, rfl⟩
    · rcases mem_segments_mark h with h | rfl
      · exact .inl h
      · exact .inr ⟨path, List.mem_cons_self, rfl⟩
    · exact .inr ⟨p, List.mem_cons_of_mem _ hp, rfl⟩

/-- Each of several marked paths is covered. -/
theorem covered_markAll {d : DirtyPaths} {paths : List String} {path : String}
    (h : path ∈ paths) (hne : path ≠ "") : (d.markAll paths).Covered (dottedSegments path) := by
  induction paths generalizing d with
  | nil => cases h
  | cons p rest ih =>
    rcases List.mem_cons.mp h with rfl | h
    · exact (keeps_markAll (d.mark path) rest).covered (covered_mark_self d hne)
    · exact ih h

/-- Marking several paths records none twice. -/
theorem nodup_markAll {d : DirtyPaths} (h : d.paths.Nodup) (paths : List String) :
    (d.markAll paths).paths.Nodup := by
  induction paths generalizing d with
  | nil => exact h
  | cons path rest ih => exact ih (nodup_mark h path)

/-- **Of several marked paths no recorded one is above another one.** -/
theorem antichain_markAll {d : DirtyPaths} (h : d.Antichain) (paths : List String) :
    (d.markAll paths).Antichain := by
  induction paths generalizing d with
  | nil => exact h
  | cons path rest ih => exact ih (antichain_mark h path)

end DirtyPaths

end DocumentMapper
