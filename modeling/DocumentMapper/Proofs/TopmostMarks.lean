import Mathlib.Data.List.Sort
import Mathlib.Tactic.Tauto
import DocumentMapper.Proofs.Marks

/-!
# What a run of marks records

A record that starts empty keeps of the marked paths the topmost ones, and covers what stands at or
below a marked path. So it does not matter in which order paths are marked, nor how often.

What a record covers is the invariant that carries a run: a mark adds exactly the marked path to it,
also when it drops or ignores something. Since no recorded path is above another one, the recorded
paths are what is covered at the top.

## Main results

* `DirtyPaths.covered_markAll_iff`: what is covered after a run of marks;
* `DirtyPaths.Antichain.mem_paths_iff`: the recorded paths are what is covered at the top;
* `DirtyPaths.topmost_marks`: what a run of marks records.
-/

namespace DocumentMapper

open Text

/-! ### Ancestors -/

/-- Nothing is above itself. -/
theorem not_mem_ancestors_self (p : String) : p ∉ ancestors p := by
  rw [← isAbove_iff_mem_ancestors, isAbove_iff]
  rintro ⟨rest, hne, hrest⟩
  exact hne (List.append_cancel_left (hrest.symm.trans (List.append_nil _).symm))

namespace DirtyPaths

/-! ### What is covered after marks -/

/-- The empty path is no mark. -/
@[simp] theorem mark_empty_path (d : DirtyPaths) : d.mark "" = d := by
  simp [mark]

/-- A mark adds what stands at or below it to what is covered. -/
theorem covered_mark_iff {d : DirtyPaths} {path : String} (hne : path ≠ "") {r : List String} :
    (d.mark path).Covered r ↔ d.Covered r ∨ dottedSegments path <+: r := by
  constructor
  · rintro ⟨m, hm, hmr⟩
    rcases mem_segments_mark hm with hm | rfl
    · exact .inl ⟨m, hm, hmr⟩
    · exact .inr hmr
  · rintro (h | h)
    · exact (d.keeps_mark path).covered h
    · exact (d.covered_mark_self hne).below h

/-- **After a run of marks it is covered what was covered, and what stands at or below a mark.** -/
theorem covered_markAll_iff {d : DirtyPaths} {marks : List String} {r : List String} :
    (d.markAll marks).Covered r ↔
      d.Covered r ∨ ∃ p ∈ marks, p ≠ "" ∧ dottedSegments p <+: r := by
  induction marks generalizing d with
  | nil => simp [markAll]
  | cons path rest ih =>
    have hrest : (d.markAll (path :: rest)).Covered r ↔
        (d.mark path).Covered r ∨ ∃ p ∈ rest, p ≠ "" ∧ dottedSegments p <+: r := ih
    rw [hrest]
    by_cases hne : path = ""
    · simp [hne]
    · simp [covered_mark_iff hne, hne, or_assoc]

/-- **Where no recorded path is above another one, the recorded paths are what is covered at the
top.** -/
theorem Antichain.mem_paths_iff {d : DirtyPaths} (h : d.Antichain) {path : String} :
    path ∈ d.paths ↔ d.Covered (dottedSegments path) ∧
      ∀ a ∈ ancestors path, ¬ d.Covered (dottedSegments a) := by
  constructor
  · intro hpath
    have hmem : dottedSegments path ∈ d.segments := mem_segments.mpr ⟨path, hpath, rfl⟩
    refine ⟨⟨_, hmem, List.prefix_refl _⟩, ?_⟩
    rintro a ha ⟨m, hm, hma⟩
    -- What covers the ancestor is recorded and above the path, so it is the path.
    have hbelow : dottedSegments a <+: dottedSegments path := prefix_iff_mem_ancestors.mpr (.inr ha)
    obtain rfl := h m hm _ hmem (hma.trans hbelow)
    have hsame := dottedSegments_injective (hma.eq_of_length_le hbelow.length_le)
    exact not_mem_ancestors_self a (hsame ▸ ha)
  · rintro ⟨⟨m, hm, hmpath⟩, htop⟩
    obtain ⟨p, hp, rfl⟩ := mem_segments.mp hm
    rcases prefix_iff_mem_ancestors.mp hmpath with rfl | habove
    · exact hp
    · exact absurd ⟨_, hm, List.prefix_refl _⟩ (htop p habove)

/-! ### The order of the recorded paths -/

/-- The recorded paths ascend. -/
def Ascending (d : DirtyPaths) : Prop :=
  d.paths.Pairwise (· < ·)

theorem pairwise_insertOrdered {path : String} {paths : List String} (h : paths.Pairwise (· < ·))
    (hnew : path ∉ paths) : (insertOrdered path paths).Pairwise (· < ·) := by
  induction paths with
  | nil => simp [insertOrdered]
  | cons p rest ih =>
    obtain ⟨hfirst, hrest⟩ := List.pairwise_cons.mp h
    rw [List.mem_cons, not_or] at hnew
    unfold insertOrdered
    split
    · rename_i hlt
      refine List.pairwise_cons.mpr ⟨fun q hq => ?_, h⟩
      rcases List.mem_cons.mp hq with rfl | hq
      · exact hlt
      · exact String.lt_trans hlt (hfirst q hq)
    · rename_i hnlt
      refine List.pairwise_cons.mpr ⟨fun q hq => ?_, ih hrest hnew.2⟩
      rcases mem_insertOrdered.mp hq with rfl | hq
      · by_contra hge
        exact hnew.1 (String.le_antisymm (String.not_lt.mp hge) (String.not_lt.mp hnlt))
      · exact hfirst q hq

/-- A mark takes its place in the order. -/
theorem Ascending.mark {d : DirtyPaths} (h : d.Ascending) (path : String) :
    (d.mark path).Ascending := by
  unfold DirtyPaths.mark
  split
  · exact h
  · rename_i hnew
    refine pairwise_insertOrdered (h.filter _) fun hmem => hnew ?_
    rw [Bool.or_eq_true]
    exact .inr (covers_of_mem (List.mem_filter.mp hmem).1)

theorem Ascending.markAll {d : DirtyPaths} (h : d.Ascending) (marks : List String) :
    (d.markAll marks).Ascending := by
  induction marks generalizing d with
  | nil => exact h
  | cons path rest ih => exact ih (h.mark path)

/-- Records in order are the same if they hold the same paths. -/
theorem Ascending.ext {d d' : DirtyPaths} (h : d.Ascending) (h' : d'.Ascending)
    (hmem : ∀ p, p ∈ d.paths ↔ p ∈ d'.paths) : d = d' := by
  obtain ⟨paths⟩ := d
  obtain ⟨paths'⟩ := d'
  exact congrArg DirtyPaths.mk (List.Pairwise.eq_of_mem_iff h h' hmem)

/-! ### Runs of marks -/

/-- A path is among some marks, where the empty path is none. -/
def IsMark (marks : List String) (path : String) : Prop :=
  path ∈ marks ∧ path ≠ ""

/-- What is covered after marks on an empty record. -/
theorem covered_markAll_empty_iff {marks : List String} {path : String} :
    (empty.markAll marks).Covered (dottedSegments path) ↔
      IsMark marks path ∨ ∃ a ∈ ancestors path, IsMark marks a := by
  simp only [covered_markAll_iff, not_covered_empty, false_or, prefix_iff_mem_ancestors, IsMark]
  constructor
  · rintro ⟨p, hp, hne, rfl | habove⟩
    · exact .inl ⟨hp, hne⟩
    · exact .inr ⟨p, habove, hp, hne⟩
  · rintro (⟨hp, hne⟩ | ⟨p, habove, hp, hne⟩)
    · exact ⟨path, hp, hne, .inl rfl⟩
    · exact ⟨p, hp, hne, .inr habove⟩

/-- What is above an ancestor is an ancestor. -/
theorem mem_ancestors_trans {a b path : String} (hab : a ∈ ancestors b) (hb : b ∈ ancestors path) :
    a ∈ ancestors path := by
  have hbelow := prefix_iff_mem_ancestors.mpr (.inr hb)
  rcases prefix_iff_mem_ancestors.mp ((prefix_iff_mem_ancestors.mpr (.inr hab)).trans hbelow) with
    rfl | ha
  · -- Neither of two paths can be above the other one.
    have hsame := dottedSegments_injective (hbelow.eq_of_length_le
      (prefix_iff_mem_ancestors.mpr (.inr hab)).length_le)
    exact absurd (hsame ▸ hb) (not_mem_ancestors_self b)
  · exact ha

theorem mem_paths_markAll_empty_iff {marks : List String} {path : String} :
    path ∈ (empty.markAll marks).paths ↔
      IsMark marks path ∧ ∀ a ∈ ancestors path, ¬ IsMark marks a := by
  simp only [(antichain_markAll antichain_empty marks).mem_paths_iff, covered_markAll_empty_iff,
    not_or, not_exists, not_and]
  constructor
  · rintro ⟨hpath | ⟨a, ha, hmark⟩, htop⟩
    · exact ⟨hpath, fun a ha => (htop a ha).1⟩
    · exact absurd hmark (htop a ha).1
  · rintro ⟨hpath, htop⟩
    exact ⟨.inl hpath, fun a ha => ⟨htop a ha, fun b hb => htop b (mem_ancestors_trans hb ha)⟩⟩

/-- **A run of marks records the topmost ones**, in order and whatever else is spelled in them, so
that neither the order of the marks nor their repetition matters. It covers what stands at or below
a mark. -/
theorem topmost_marks (marks : List String) :
    (∀ p, p ∈ (empty.markAll marks).paths ↔
      IsMark marks p ∧ ∀ a ∈ ancestors p, ¬ IsMark marks a) ∧
    (∀ q, (empty.markAll marks).covers q = true ↔
      IsMark marks q ∨ ∃ a ∈ ancestors q, IsMark marks a) ∧
    (empty.markAll marks).paths.Pairwise (· < ·) ∧
    ∀ marks', (∀ p, IsMark marks' p ↔ IsMark marks p) →
      empty.markAll marks' = empty.markAll marks := by
  have hordered : ∀ marks, (empty.markAll marks).Ascending := fun marks =>
    Ascending.markAll (d := empty) .nil marks
  refine ⟨fun p => mem_paths_markAll_empty_iff, fun q => ?_, hordered marks, fun marks' hsame => ?_⟩
  · rw [covers_iff, covered_markAll_empty_iff]
  · refine (hordered marks').ext (hordered marks) fun p => ?_
    simp only [mem_paths_markAll_empty_iff, hsame]

/-- Some marks, with a path twice and the empty one among them, and the same marks in another
order. -/
theorem topmost_marks_reordered :
    (∀ p, IsMark ["a", "ab", "a.c.0", "a.b"] p ↔ IsMark ["a.b", "", "a.c.0", "ab", "a.b", "a"] p) ∧
      empty.markAll ["a", "ab", "a.c.0", "a.b"] =
        empty.markAll ["a.b", "", "a.c.0", "ab", "a.b", "a"] ∧
      empty.markAll ["a", "ab", "a.c.0", "a.b"] = ⟨["a", "ab"]⟩ := by
  have hsame : ∀ p, IsMark ["a", "ab", "a.c.0", "a.b"] p ↔
      IsMark ["a.b", "", "a.c.0", "ab", "a.b", "a"] p := by
    intro p
    simp only [IsMark, List.mem_cons, List.not_mem_nil, or_false]
    tauto
  exact ⟨hsame, (topmost_marks _).2.2.2 _ hsame, by decide +kernel⟩

end DirtyPaths

end DocumentMapper
