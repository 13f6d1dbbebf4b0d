import DocumentMapper.Document.Changes
import DocumentMapper.Proofs.EditsByPart
import DocumentMapper.Proofs.Marks
import DocumentMapper.Proofs.PatchEdits
import DocumentMapper.Proofs.StoredDocuments
import DocumentMapper.Proofs.Tracking

/-!
# Changed paths and the patch that stores them

The changed paths of a document are those that it has recorded itself and those of the documents
inside it, each behind the path that leads to the document. `Nested` says which paths come from
inside a value; a value that is covered by a changed path has no say, and neither has a document in
an attribute that is declared as a reference.

The patch has one entry for each changed path: under the path in the store, the stored form of what
lives there.

## Main results

* `Document.mem_changesFrom`: the changed paths, by segments;
* `Document.changedPaths_covered`, `Document.nested_of_changedPaths`: what the recorded ones are;
* `Document.gives_incrementalPatch`: the entries of the patch.
-/

namespace DocumentMapper

open Text Drawing

/-! ### Changes inside values -/

/-- The changed paths that come from documents inside a value, which stands at a position of a
document with changed paths of its own. -/
inductive Nested : DirtyPaths → List String → Value → List String → Prop
  | item {d : DirtyPaths} {r : List String} {items : List Value} {i : Nat} {v : Value}
      {q : List String} (hv : items[i]? = some v) (h : Nested d (r ++ [toString i]) v q) :
      Nested d r (.list items) (toString i :: q)
  | entry {d : DirtyPaths} {r : List String} {entries : List (String × Value)} {key : String}
      {v : Value} {q : List String} (hv : (key, v) ∈ entries)
      (h : Nested d (r ++ dottedSegments key) v q) :
      Nested d r (.dict entries) (dottedSegments key ++ q)
  | own {d : DirtyPaths} {r : List String} {doc : Document} {q : List String}
      (huncovered : ¬ d.Covered r) (h : q ∈ doc.dirty.segments) : Nested d r (.document doc) q
  | inside {d : DirtyPaths} {r : List String} {doc : Document} {name : String} {v : Value}
      {q : List String} (huncovered : ¬ d.Covered r)
      (hreference : (doc.type.field? name).any (fun f => f.kind.isReference) = false)
      (hv : (name, v) ∈ doc.values) (h : Nested doc.dirty (dottedSegments name) v q) :
      Nested d r (.document doc) (dottedSegments name ++ q)

/-- Nothing comes from inside a covered value. -/
theorem Nested.uncovered {d : DirtyPaths} {r : List String} {v : Value} {q : List String}
    (h : Nested d r v q) : ¬ d.Covered r := by
  induction h with
  | item _ _ ih => exact fun hr => ih (hr.below (List.prefix_append _ _))
  | entry _ _ ih => exact fun hr => ih (hr.below (List.prefix_append _ _))
  | own huncovered _ => exact huncovered
  | inside huncovered _ _ _ _ => exact huncovered

/-- A changed path from inside a value is made of segments. -/
theorem Nested.isSegment {d : DirtyPaths} {r : List String} {v : Value} {q : List String}
    (h : Nested d r v q) : q ≠ [] ∧ ∀ s ∈ q, IsSegment s := by
  induction h with
  | @item _ _ _ i _ _ _ _ ih =>
    refine ⟨List.cons_ne_nil _ _, fun s hs => ?_⟩
    rcases List.mem_cons.mp hs with rfl | hs
    · exact isSegment_toString i
    · exact ih.2 s hs
  | @entry _ _ _ key _ _ _ _ ih =>
    refine ⟨fun hnil => ih.1 (List.append_eq_nil_iff.mp hnil).2, fun s hs => ?_⟩
    rcases List.mem_append.mp hs with hs | hs
    · exact isSegment_of_mem_dottedSegments hs
    · exact ih.2 s hs
  | own _ h => exact ⟨DirtyPaths.ne_nil_of_mem h, DirtyPaths.isSegment_of_mem h⟩
  | @inside _ _ _ name _ _ _ _ _ _ ih =>
    refine ⟨fun hnil => ih.1 (List.append_eq_nil_iff.mp hnil).2, fun s hs => ?_⟩
    rcases List.mem_append.mp hs with hs | hs
    · exact isSegment_of_mem_dottedSegments hs
    · exact ih.2 s hs

mutual

/-- Nothing comes from inside a value without marks. -/
theorem Value.not_nested_unmarked : ∀ (v : Value) {d : DirtyPaths} {r q : List String},
    ¬ Nested d r v.unmarked q
  | .list items, _, _, _ => by
    intro h
    cases h with
    | item hv h => exact not_nested_unmarkedItems items _ hv h
  | .dict entries, _, _, _ => by
    intro h
    cases h with
    | entry hv h => exact not_nested_unmarkedEntries entries hv h
  | .document doc, _, _, _ => Document.not_nested_unmarked doc
  | .null, _, _, _ => nofun
  | .bool _, _, _, _ => nofun
  | .int _, _, _, _ => nofun
  | .float _, _, _, _ => nofun
  | .string _, _, _, _ => nofun
  | .datetime _, _, _, _ => nofun
  | .reference _, _, _, _ => nofun
  | .linked _, _, _, _ => nofun
termination_by structural v => v

/-- The same for items. -/
theorem not_nested_unmarkedItems : ∀ (items : List Value) (i : Nat) {v : Value},
    (unmarkedItems items)[i]? = some v → ∀ {d : DirtyPaths} {r q : List String}, ¬ Nested d r v q
  | [], _, _, hv, _, _, _ => by simp [unmarkedItems] at hv
  | w :: ws, i, v, hv, d, r, q => by
    cases i with
    | zero =>
      obtain rfl : w.unmarked = v := by simpa [unmarkedItems] using hv
      exact Value.not_nested_unmarked w
    | succ i => exact not_nested_unmarkedItems ws i (by simpa [unmarkedItems] using hv)
termination_by structural items => items

/-- The same for entries. -/
theorem not_nested_unmarkedEntries : ∀ (es : List (String × Value)) {key : String} {v : Value},
    (key, v) ∈ unmarkedEntries es → ∀ {d : DirtyPaths} {r q : List String}, ¬ Nested d r v q
  | [], _, _, hv, _, _, _ => by simp [unmarkedEntries] at hv
  | (k, w) :: rest, key, v, hv, d, r, q => by
    rcases List.mem_cons.mp hv with heq | hv
    · obtain ⟨rfl, rfl⟩ := Prod.mk.inj heq
      exact Value.not_nested_unmarked w
    · exact not_nested_unmarkedEntries rest hv
termination_by structural es => es

/-- The same for a document. -/
theorem Document.not_nested_unmarked : ∀ (doc : Document) {d : DirtyPaths} {r q : List String},
    ¬ Nested d r (.document doc.unmarked) q
  | ⟨type, values, dirty, raw⟩, d, r, q => by
    intro h
    cases h with
    | own _ h => cases h
    | inside _ _ hv h => exact not_nested_unmarkedEntries values hv h
termination_by structural doc => doc

end

/-! ### The changed paths of a document -/

theorem mem_changesInItems_iff {own : DirtyPaths} {front rel : String} {i : Nat} {vs : List Value}
    {path : String} :
    path ∈ changesInItems own front rel i vs ↔
      ∃ (k : Nat) (v : Value), vs[k]? = some v ∧
        path ∈ v.changesAt own front (rel ++ "." ++ toString (i + k)) := by
  induction vs generalizing i with
  | nil => simp [changesInItems]
  | cons w ws ih =>
    simp only [changesInItems, List.mem_append, ih]
    constructor
    · rintro (h | ⟨k, v, hv, h⟩)
      · exact ⟨0, w, rfl, h⟩
      · refine ⟨k + 1, v, by simpa using hv, ?_⟩
        rwa [show i + (k + 1) = i + 1 + k by omega]
    · rintro ⟨k, v, hv, h⟩
      cases k with
      | zero =>
        obtain rfl : w = v := by simpa using hv
        exact .inl h
      | succ k =>
        refine .inr ⟨k, v, by simpa using hv, ?_⟩
        rwa [show i + 1 + k = i + (k + 1) by omega]

theorem mem_changesInEntries_iff {own : DirtyPaths} {front rel : String}
    {es : List (String × Value)} {path : String} :
    path ∈ changesInEntries own front rel es ↔
      ∃ key v, (key, v) ∈ es ∧ path ∈ v.changesAt own front (rel ++ "." ++ key) := by
  induction es with
  | nil => simp [changesInEntries]
  | cons e rest ih =>
    obtain ⟨k, w⟩ := e
    simp only [changesInEntries, List.mem_append, ih, List.mem_cons]
    constructor
    · rintro (h | ⟨key, v, hv, h⟩)
      · exact ⟨k, w, .inl rfl, h⟩
      · exact ⟨key, v, .inr hv, h⟩
    · rintro ⟨key, v, heq | hv, h⟩
      · obtain ⟨rfl, rfl⟩ := Prod.mk.inj heq
        exact .inl h
      · exact .inr ⟨key, v, hv, h⟩

theorem mem_changesInAttributes_iff {type : DocumentType} {own : DirtyPaths} {front : String}
    {es : List (String × Value)} {path : String} :
    path ∈ changesInAttributes type own front es ↔
      ∃ name v, (name, v) ∈ es ∧
        (type.field? name).any (fun f => f.kind.isReference) = false ∧
        path ∈ v.changesAt own front name := by
  induction es with
  | nil => simp [changesInAttributes]
  | cons e rest ih =>
    obtain ⟨k, w⟩ := e
    simp only [changesInAttributes, List.mem_append, ih, List.mem_cons]
    constructor
    · rintro (h | ⟨name, v, hv, hreference, h⟩)
      · split at h
        · cases h
        · rename_i hreference
          exact ⟨k, w, .inl rfl, by simpa using hreference, h⟩
      · exact ⟨name, v, .inr hv, hreference, h⟩
    · rintro ⟨name, v, heq | hv, hreference, h⟩
      · obtain ⟨rfl, rfl⟩ := Prod.mk.inj heq
        left
        rw [hreference]
        exact h
      · exact .inr ⟨name, v, hv, hreference, h⟩

/-- What comes from inside a document does not depend on where it stands, unless it is covered. -/
theorem nested_document_iff {d : DirtyPaths} {r : List String} {doc : Document}
    {q : List String} :
    Nested d r (.document doc) q ↔ ¬ d.Covered r ∧ Nested .empty [] (.document doc) q := by
  constructor
  · intro h
    refine ⟨h.uncovered, ?_⟩
    cases h with
    | own _ h => exact .own (DirtyPaths.not_covered_empty _) h
    | inside _ hreference hv h =>
      exact .inside (DirtyPaths.not_covered_empty _) hreference hv h
  · rintro ⟨huncovered, h⟩
    cases h with
    | own _ h => exact .own huncovered h
    | inside _ hreference hv h => exact .inside huncovered hreference hv h

/-- A path behind a first part is the dotted path of both. -/
theorem front_dotted (front rel : String) {q : List String} (hq : q ≠ []) :
    front ++ rel ++ "." ++ dotted q = front ++ dotted (dottedSegments rel ++ q) := by
  rw [dotted_append (dottedSegments_ne_nil rel) hq, dotted_dottedSegments]
  simp [String.append_assoc]

mutual

/-- The changed paths inside a value, by segments. -/
theorem Value.mem_changesAt : ∀ (v : Value) {own : DirtyPaths} {front rel path : String},
    path ∈ v.changesAt own front rel ↔
      ∃ q, Nested own (dottedSegments rel) v q ∧ path = front ++ rel ++ "." ++ dotted q
  | .list items, own, front, rel, path => by
    simp only [Value.changesAt]
    split
    · rename_i hcovers
      have hcovered := DirtyPaths.covers_iff.mp hcovers
      exact ⟨fun h => (List.not_mem_nil h).elim, fun ⟨q, h, _⟩ => absurd hcovered h.uncovered⟩
    · rw [mem_changesInItems_iff]
      constructor
      · rintro ⟨k, v, hv, h⟩
        obtain ⟨q, hq, rfl⟩ := (mem_changesInItems items k v hv).mp h
        rw [Nat.zero_add] at hq ⊢
        rw [dottedSegments_below rel (isSegment_toString k)] at hq
        refine ⟨toString k :: q, .item hv hq, ?_⟩
        rw [dotted_cons _ hq.isSegment.1]
        simp [String.append_assoc]
      · rintro ⟨_, h, rfl⟩
        cases h with
        | @item _ _ _ k v q hv h =>
          refine ⟨k, v, hv, (mem_changesInItems items k v hv).mpr ⟨q, ?_, ?_⟩⟩
          · rwa [Nat.zero_add, dottedSegments_below rel (isSegment_toString k)]
          · rw [dotted_cons _ h.isSegment.1, Nat.zero_add]
            simp [String.append_assoc]
  | .dict entries, own, front, rel, path => by
    simp only [Value.changesAt]
    split
    · rename_i hcovers
      have hcovered := DirtyPaths.covers_iff.mp hcovers
      exact ⟨fun h => (List.not_mem_nil h).elim, fun ⟨q, h, _⟩ => absurd hcovered h.uncovered⟩
    · rw [mem_changesInEntries_iff]
      constructor
      · rintro ⟨key, v, hv, h⟩
        obtain ⟨q, hq, rfl⟩ := (mem_changesInEntries entries key v hv).mp h
        rw [dottedSegments_append] at hq
        refine ⟨dottedSegments key ++ q, .entry hv hq, ?_⟩
        rw [← String.append_assoc, ← String.append_assoc, front_dotted _ key hq.isSegment.1]
      · rintro ⟨_, h, rfl⟩
        cases h with
        | @entry _ _ _ key v q hv h =>
          refine ⟨key, v, hv, (mem_changesInEntries entries key v hv).mpr ⟨q, ?_, ?_⟩⟩
          · rwa [dottedSegments_append]
          · rw [← String.append_assoc, ← String.append_assoc, front_dotted _ key h.isSegment.1]
  | .document doc, own, front, rel, path => by
    simp only [Value.changesAt]
    split
    · rename_i hcovers
      have hcovered := DirtyPaths.covers_iff.mp hcovers
      exact ⟨fun h => (List.not_mem_nil h).elim, fun ⟨q, h, _⟩ => absurd hcovered h.uncovered⟩
    · rename_i hcovers
      have huncovered : ¬ own.Covered (dottedSegments rel) := fun h =>
        hcovers (DirtyPaths.covers_iff.mpr h)
      rw [Document.mem_changesFrom doc]
      constructor
      · rintro ⟨q, h, rfl⟩
        exact ⟨q, nested_document_iff.mpr ⟨huncovered, h⟩, rfl⟩
      · rintro ⟨q, h, rfl⟩
        exact ⟨q, (nested_document_iff.mp h).2, rfl⟩
  | .null, _, _, _, _ => by simp [Value.changesAt]; nofun
  | .bool _, _, _, _, _ => by simp [Value.changesAt]; nofun
  | .int _, _, _, _, _ => by simp [Value.changesAt]; nofun
  | .float _, _, _, _, _ => by simp [Value.changesAt]; nofun
  | .string _, _, _, _, _ => by simp [Value.changesAt]; nofun
  | .datetime _, _, _, _, _ => by simp [Value.changesAt]; nofun
  | .reference _, _, _, _, _ => by simp [Value.changesAt]; nofun
  | .linked _, _, _, _, _ => by simp [Value.changesAt]; nofun
termination_by structural v => v

/-- The same for items. -/
theorem mem_changesInItems : ∀ (vs : List Value) (k : Nat) (v : Value), vs[k]? = some v →
    ∀ {own : DirtyPaths} {front rel path : String},
    path ∈ v.changesAt own front rel ↔
      ∃ q, Nested own (dottedSegments rel) v q ∧ path = front ++ rel ++ "." ++ dotted q
  | [], _, _, hv, _, _, _, _ => by simp at hv
  | w :: ws, k, v, hv, own, front, rel, path => by
    cases k with
    | zero =>
      obtain rfl : w = v := by simpa using hv
      exact Value.mem_changesAt w
    | succ k => exact mem_changesInItems ws k v (by simpa using hv)
termination_by structural vs => vs

/-- The same for entries. -/
theorem mem_changesInEntries : ∀ (es : List (String × Value)) (key : String) (v : Value),
    (key, v) ∈ es → ∀ {own : DirtyPaths} {front rel path : String},
    path ∈ v.changesAt own front rel ↔
      ∃ q, Nested own (dottedSegments rel) v q ∧ path = front ++ rel ++ "." ++ dotted q
  | [], _, _, hv, _, _, _, _ => by cases hv
  | (k, w) :: rest, key, v, hv, own, front, rel, path => by
    by_cases heq : (k, w) = (key, v)
    · obtain ⟨rfl, rfl⟩ := Prod.mk.inj heq
      exact Value.mem_changesAt w
    · exact mem_changesInEntries rest key v ((List.mem_cons.mp hv).resolve_left (Ne.symm heq))
termination_by structural es => es

/-- **The changed paths of a document**, by segments. -/
theorem Document.mem_changesFrom : ∀ (doc : Document) {front path : String},
    path ∈ doc.changesFrom front ↔
      ∃ q, Nested .empty [] (.document doc) q ∧ path = front ++ dotted q
  | ⟨type, values, dirty, raw⟩, front, path => by
    simp only [Document.changesFrom, List.mem_append, List.mem_map, mem_changesInAttributes_iff]
    constructor
    · rintro (⟨p, hp, rfl⟩ | ⟨name, v, hv, hreference, h⟩)
      · refine ⟨dottedSegments p, .own (DirtyPaths.not_covered_empty _) ?_, ?_⟩
        · exact DirtyPaths.mem_segments.mpr ⟨p, hp, rfl⟩
        · rw [dotted_dottedSegments]
      · obtain ⟨q, hq, rfl⟩ := (mem_changesInEntries values name v hv).mp h
        refine ⟨dottedSegments name ++ q, ?_, front_dotted front name hq.isSegment.1⟩
        exact .inside (DirtyPaths.not_covered_empty _) hreference hv hq
    · rintro ⟨_, h, rfl⟩
      cases h with
      | own _ h =>
        obtain ⟨p, hp, rfl⟩ := DirtyPaths.mem_segments.mp h
        exact .inl ⟨p, hp, by rw [dotted_dottedSegments]⟩
      | @inside _ _ _ name v q _ hreference hv h =>
        refine .inr ⟨name, v, hv, hreference, (mem_changesInEntries values name v hv).mpr ⟨q, h, ?_⟩⟩
        rw [front_dotted front name h.isSegment.1]
termination_by structural doc => doc

end

namespace Document

variable {doc : Document}

/-- No changed path of a document is above another one. -/
theorem antichain_changedPaths (doc : Document) : doc.changedPaths.Antichain :=
  DirtyPaths.antichain_markAll DirtyPaths.antichain_empty _

/-- A recorded change comes from the document or from inside it. -/
theorem nested_of_changedPaths {q : List String} (h : q ∈ doc.changedPaths.segments) :
    Nested .empty [] (.document doc) q := by
  rcases DirtyPaths.mem_segments_markAll h with h | ⟨path, hpath, rfl⟩
  · cases h
  · obtain ⟨q, hq, rfl⟩ := (mem_changesFrom doc).mp hpath
    rw [String.empty_append, dottedSegments_dotted hq.isSegment.1 hq.isSegment.2]
    exact hq

/-- Every change of the document or inside it is covered by a recorded one. -/
theorem changedPaths_covered {q : List String} (h : Nested .empty [] (.document doc) q)
    (hne : q ≠ [""]) : doc.changedPaths.Covered q := by
  have hsegments := dottedSegments_dotted h.isSegment.1 h.isSegment.2
  have hmem : dotted q ∈ doc.changesFrom "" :=
    (mem_changesFrom doc).mpr ⟨q, h, (String.empty_append).symm⟩
  have hempty : dotted q ≠ "" := by
    intro heq
    rw [heq] at hsegments
    exact hne (hsegments.symm.trans rfl)
  have hcovered := DirtyPaths.covered_markAll (d := .empty) hmem hempty
  rwa [hsegments] at hcovered

end Document

/-! ### The entries of the patch -/

/-- An edit puts what is stored for a place. -/
def Place.Asks (p : Place) (edit : Edit) : Prop :=
  ∃ j, p.toJson.Gives j ∧ edit.outcome = j.unlessNull.map Json.content

/-- The place of a document that stands for itself. -/
def Document.place (doc : Document) : Place :=
  ⟨none, some (.document doc)⟩

/-- A path is followed from the place of the document. -/
theorem Document.locate_eq (doc : Document) (path : String) :
    doc.locate path = ((doc.place.follow (dottedSegments path)).1,
      dotted (doc.place.follow (dottedSegments path)).2) := by
  unfold Document.locate
  split
  · rename_i hnil
    exact absurd hnil (dottedSegments_ne_nil path)
  · rename_i first rest hcons
    rw [hcons]
    rfl

namespace Patch

/-- An edit of a patch with one more entry is an old one or puts the entry. -/
theorem mem_edits_put {p : Patch} {key : String} {j : Json} {e : List String × Edit}
    (h : e ∈ (p.put key j).edits) :
    e ∈ p.edits ∨
      e.1 = dottedSegments key ∧ e.2.outcome = j.unlessNull.map Json.content := by
  unfold put at h
  split at h
  · rename_i hnull
    simp only [edits, List.mem_append, List.mem_map] at h ⊢
    rcases h with h | ⟨entry, hentry, rfl⟩
    · exact .inl (.inl h)
    · rcases Entries.mem_insert hentry with hentry | rfl
      · exact .inl (.inr ⟨entry, hentry, rfl⟩)
      · exact .inr ⟨rfl, by simp [Edit.outcome, Json.unlessNull, hnull]⟩
  · rename_i hnull
    simp only [edits, List.mem_append, List.mem_map] at h ⊢
    rcases h with ⟨entry, hentry, rfl⟩ | h
    · rcases Entries.mem_insert hentry with hentry | rfl
      · exact .inl (.inl ⟨entry, hentry, rfl⟩)
      · exact .inr ⟨rfl, by simp [Edit.outcome, Json.unlessNull, hnull]⟩
    · exact .inl (.inr h)

/-- The edits of a patch are made at the segments of its paths. -/
theorem map_fst_edits (p : Patch) : p.edits.map Prod.fst = p.paths.map dottedSegments := by
  simp [edits, paths, List.map_map, Function.comp_def]

/-- A patch with one more entry has its path besides the old ones. -/
theorem mem_paths_put {p : Patch} {key : String} {j : Json} {path : String} :
    path ∈ (p.put key j).paths ↔ path = key ∨ path ∈ p.paths := by
  unfold put
  split
  · simp only [paths, List.mem_append, Entries.mem_keys_insert]
    exact or_left_comm
  · simp only [paths, List.mem_append, Entries.mem_keys_insert]
    exact or_assoc

end Patch

/-- What storing some paths adds to a patch. -/
theorem Document.gives_patchPaths {doc : Document} {paths : List String} {start p : Patch}
    (h : (doc.patchPaths paths start).Gives p) :
    (∀ e ∈ p.edits, e ∈ start.edits ∨ ∃ path ∈ paths,
      e.1 = dottedSegments (doc.locate path).2 ∧ (doc.locate path).1.Asks e.2) ∧
    ∀ key, key ∈ p.paths ↔ key ∈ start.paths ∨ ∃ path ∈ paths, (doc.locate path).2 = key := by
  induction paths generalizing start with
  | nil =>
    obtain rfl := gives_pure.mp h
    simp
  | cons path rest ih =>
    obtain ⟨j, hj, hrest⟩ := Gives.of_bind h
    obtain ⟨hedits, hpaths⟩ := ih hrest
    refine ⟨fun e he => ?_, fun key => ?_⟩
    · rcases hedits e he with he | ⟨path', hpath', hasks⟩
      · rcases Patch.mem_edits_put he with he | ⟨hkey, houtcome⟩
        · exact .inl he
        · exact .inr ⟨path, List.mem_cons_self, hkey, j, hj, houtcome⟩
      · exact .inr ⟨path', List.mem_cons_of_mem _ hpath', hasks⟩
    · rw [hpaths, Patch.mem_paths_put, List.exists_mem_cons_iff]
      constructor
      · rintro ((rfl | h) | h)
        · exact .inr (.inl rfl)
        · exact .inl h
        · exact .inr (.inr h)
      · rintro (h | rfl | h)
        · exact .inl (.inr h)
        · exact .inl (.inl rfl)
        · exact .inr h

/-- **The entries of the patch of what changed**: each puts what lives at a changed path, and every
changed path has one. -/
theorem Document.gives_incrementalPatch {doc : Document} {p : Patch}
    (h : doc.incrementalPatch.Gives p) :
    (∀ e ∈ p.edits, ∃ q ∈ doc.changedPaths.segments,
      e.1 = dottedSegments (dotted (doc.place.follow q).2) ∧ (doc.place.follow q).1.Asks e.2) ∧
    ∀ q ∈ doc.changedPaths.segments, ∃ edit,
      (dottedSegments (dotted (doc.place.follow q).2), edit) ∈ p.edits := by
  obtain ⟨hedits, hpaths⟩ := gives_patchPaths h
  refine ⟨fun e he => ?_, fun q hq => ?_⟩
  · rcases hedits e he with he | ⟨path, hpath, hkey, hasks⟩
    · cases he
    · rw [locate_eq] at hkey hasks
      exact ⟨_, DirtyPaths.mem_segments.mpr ⟨path, hpath, rfl⟩, hkey, hasks⟩
  · obtain ⟨path, hpath, rfl⟩ := DirtyPaths.mem_segments.mp hq
    have hmem := (hpaths _).mpr (.inr ⟨path, hpath, rfl⟩)
    rw [locate_eq] at hmem
    have hfst := List.mem_map_of_mem (f := dottedSegments) hmem
    rw [← Patch.map_fst_edits] at hfst
    obtain ⟨⟨s, edit⟩, he, hs⟩ := List.mem_map.mp hfst
    refine ⟨edit, ?_⟩
    rw [← hs]
    exact he

end DocumentMapper
