import DocumentMapper.Proofs.ChangedPlaces
import DocumentMapper.Proofs.TopmostMarks

/-!
# Marks that are not collected

Changed paths are collected from a document and from the documents embedded in it, and what stands
at or below a changed path of its own document is not looked into. `Document.HasMark` says which
paths would be collected if everything were looked into: the marks of the document and of each
embedded one, behind the path that leads there, whoever else has marked what.

A mark that is left out always has a collected one above it, namely the one for which its document
was not looked into. So the record of the changed paths, which keeps the topmost ones, is the same.
This takes a record without the empty path, as every record is that was made of marks: the empty
path would cover what is inside an attribute with an empty name, and is not recorded itself.

## Main results

* `Document.hasMark_of_mem_changesFrom`: what is collected is a mark;
* `Document.HasMark.collected`: at or above every mark there is one that is collected;
* `Document.changedPaths_topmost`: the changed paths are the topmost marks.
-/

namespace DocumentMapper

open Text

/-- A record that was made of marks does not have the empty path. -/
theorem DirtyPaths.empty_path_not_mem (marks : List String) :
    "" ∉ (DirtyPaths.empty.markAll marks).paths :=
  fun h => (mem_paths_markAll_empty_iff.mp h).1.2 rfl

/-! ### Marks of embedded documents -/

/-- Items and entries lead from a value to a document; `way` is what the path of the value goes on
with. -/
inductive Value.LeadsTo : Value → String → Document → Prop
  | document (doc : Document) : LeadsTo (.document doc) "" doc
  | item {items : List Value} {i : Nat} {v : Value} {way : String} {doc : Document}
      (hv : items[i]? = some v) (h : LeadsTo v way doc) :
      LeadsTo (.list items) ("." ++ toString i ++ way) doc
  | entry {entries : List (String × Value)} {key : String} {v : Value} {way : String}
      {doc : Document} (hv : (key, v) ∈ entries) (h : LeadsTo v way doc) :
      LeadsTo (.dict entries) ("." ++ key ++ way) doc

/-- A document is another one or embedded in it at any depth, not counting what is held in
attributes that are declared as references. Its paths stand behind `front` there. -/
inductive Document.Encloses : Document → String → Document → Prop
  | self (doc : Document) : Encloses doc "" doc
  | inside {doc inner innermost : Document} {name way front : String} {v : Value}
      (hv : (name, v) ∈ doc.values)
      (hreference : (doc.type.field? name).any (fun f => f.kind.isReference) = false)
      (hway : v.LeadsTo way inner) (h : Encloses inner front innermost) :
      Encloses doc (name ++ way ++ "." ++ front) innermost

/-- A path is marked in a document or in one that it encloses. -/
def Document.HasMark (doc : Document) (path : String) : Prop :=
  ∃ front inner, doc.Encloses front inner ∧ ∃ p ∈ inner.dirty.paths, path = front ++ p

namespace Document

variable {doc inner : Document} {front name way path p : String} {v : Value}

/-- What is marked in a document is marked there for all documents around it. -/
theorem HasMark.inside (hv : (name, v) ∈ doc.values)
    (hreference : (doc.type.field? name).any (fun f => f.kind.isReference) = false)
    (hway : v.LeadsTo way inner) (h : inner.HasMark p) :
    doc.HasMark (name ++ way ++ "." ++ p) := by
  obtain ⟨front, innermost, hencloses, q, hq, rfl⟩ := h
  exact ⟨_, innermost, .inside hv hreference hway hencloses, q, hq, by simp [String.append_assoc]⟩

/-- The empty path is a mark of the document itself, if it is one. -/
theorem not_hasMark_empty_path (hdoc : "" ∉ doc.dirty.paths) : ¬ doc.HasMark "" := by
  rintro ⟨front, inner, hencloses, p, hp, heq⟩
  cases hencloses with
  | self => exact hdoc (by rwa [heq, String.empty_append])
  | @inside _ _ _ name way front =>
    have hpoint := congrArg String.toList heq
    simp at hpoint

/-! ### What is collected -/

/-- Changes inside a value are marks of documents that items and entries lead to. -/
theorem marks_of_nested {d : DirtyPaths} {r q : List String} (h : Nested d r v q) :
    ∃ way inner p, v.LeadsTo way inner ∧ inner.HasMark p ∧ "." ++ dotted q = way ++ "." ++ p := by
  induction h with
  | @item _ _ _ i v q hv h ih =>
    obtain ⟨way, inner, p, hway, hmark, hpath⟩ := ih
    refine ⟨_, inner, p, .item hv hway, hmark, ?_⟩
    rw [dotted_cons _ h.isSegment.1, String.append_assoc, String.append_assoc, hpath]
    simp [String.append_assoc]
  | @entry _ _ _ key v q hv h ih =>
    obtain ⟨way, inner, p, hway, hmark, hpath⟩ := ih
    refine ⟨_, inner, p, .entry hv hway, hmark, ?_⟩
    rw [dotted_append (dottedSegments_ne_nil key) h.isSegment.1, dotted_dottedSegments,
      String.append_assoc, hpath]
    simp [String.append_assoc]
  | @own _ _ doc q _ h =>
    obtain ⟨p, hp, rfl⟩ := DirtyPaths.mem_segments.mp h
    refine ⟨"", doc, p, .document doc, ⟨"", doc, .self doc, p, hp, by simp⟩, ?_⟩
    rw [dotted_dottedSegments, String.empty_append]
  | @inside _ _ doc name v q _ hreference hv h ih =>
    obtain ⟨way, inner, p, hway, hmark, hpath⟩ := ih
    refine ⟨"", doc, _, .document doc, hmark.inside hv hreference hway, ?_⟩
    rw [dotted_append (dottedSegments_ne_nil name) h.isSegment.1, dotted_dottedSegments,
      String.append_assoc, hpath]
    simp [String.append_assoc]

/-- **What is collected is a mark.** -/
theorem hasMark_of_mem_changesFrom (h : path ∈ doc.changesFrom "") : doc.HasMark path := by
  obtain ⟨q, hq, rfl⟩ := (mem_changesFrom doc).mp h
  obtain ⟨way, inner, p, hway, hmark, hpath⟩ := marks_of_nested hq
  cases hway
  rw [String.empty_append, String.append_right_inj] at hpath
  rwa [String.empty_append, hpath]

/-! ### What is left out -/

/-- What an embedded document reports is reported behind the way to it, unless the end of the way is
covered. -/
theorem nested_of_leadsTo (hway : v.LeadsTo way inner) {d : DirtyPaths} {rel : String}
    {q : List String} (huncovered : ¬ d.Covered (dottedSegments (rel ++ way)))
    (h : Nested .empty [] (.document inner) q) :
    ∃ q', Nested d (dottedSegments rel) v q' ∧
      dottedSegments rel ++ q' = dottedSegments (rel ++ way) ++ q := by
  induction hway generalizing rel with
  | document doc =>
    rw [String.append_empty] at huncovered ⊢
    exact ⟨q, nested_document_iff.mpr ⟨huncovered, h⟩, rfl⟩
  | @item items i v way doc hv hway ih =>
    have hrel : rel ++ ("." ++ toString i ++ way) = rel ++ "." ++ toString i ++ way := by
      simp [String.append_assoc]
    rw [hrel] at huncovered ⊢
    obtain ⟨q', hq', hsame⟩ := ih huncovered h
    rw [dottedSegments_below rel (isSegment_toString i)] at hq' hsame
    exact ⟨toString i :: q', .item hv hq', by simpa using hsame⟩
  | @entry entries key v way doc hv hway ih =>
    have hrel : rel ++ ("." ++ key ++ way) = rel ++ "." ++ key ++ way := by
      simp [String.append_assoc]
    rw [hrel] at huncovered ⊢
    obtain ⟨q', hq', hsame⟩ := ih huncovered h
    rw [dottedSegments_append] at hq' hsame
    exact ⟨dottedSegments key ++ q', .entry hv hq', by simpa using hsame⟩

/-- At or above a mark of an enclosed document there is a change that is reported. -/
theorem Encloses.nested (h : doc.Encloses front inner) (hp : p ∈ inner.dirty.paths) :
    ∃ q, Nested .empty [] (.document doc) q ∧ q <+: dottedSegments (front ++ p) := by
  induction h with
  | self doc =>
    rw [String.empty_append]
    exact ⟨dottedSegments p, .own (DirtyPaths.not_covered_empty _)
      (DirtyPaths.mem_segments.mpr ⟨p, hp, rfl⟩), List.prefix_refl _⟩
  | @inside doc inner innermost name way front v hv hreference hway _ ih =>
    obtain ⟨q, hq, hbegins⟩ := ih hp
    have hpath : dottedSegments (name ++ way ++ "." ++ front ++ p) =
        dottedSegments (name ++ way) ++ dottedSegments (front ++ p) := by
      rw [String.append_assoc, dottedSegments_append]
    rw [hpath]
    by_cases hcovered : doc.dirty.Covered (dottedSegments (name ++ way))
    · -- The document is not looked into, because of a mark that stands above it.
      obtain ⟨m, hm, habove⟩ := hcovered
      exact ⟨m, .own (DirtyPaths.not_covered_empty _) hm, habove.trans (List.prefix_append _ _)⟩
    · obtain ⟨q', hq', hsame⟩ := nested_of_leadsTo hway hcovered hq
      refine ⟨_, .inside (DirtyPaths.not_covered_empty _) hreference hv hq', ?_⟩
      rw [hsame]
      exact (List.prefix_append_right_inj _).mpr hbegins

/-- **At or above every mark there is one that is collected.** -/
theorem HasMark.collected (h : doc.HasMark path) :
    ∃ p ∈ doc.changesFrom "", p = path ∨ p ∈ ancestors path := by
  obtain ⟨front, inner, hencloses, p, hp, rfl⟩ := h
  obtain ⟨q, hq, hbegins⟩ := hencloses.nested hp
  refine ⟨dotted q, (mem_changesFrom doc).mpr ⟨q, hq, (String.empty_append).symm⟩, ?_⟩
  rw [← prefix_iff_mem_ancestors, dottedSegments_dotted hq.isSegment.1 hq.isSegment.2]
  exact hbegins

/-! ### Topmost marks -/

/-- The collected paths and the marks have the same paths on top. -/
theorem topmost_collected_iff :
    (path ∈ doc.changesFrom "" ∧ ∀ a ∈ ancestors path, a ∉ doc.changesFrom "") ↔
      doc.HasMark path ∧ ∀ a ∈ ancestors path, ¬ doc.HasMark a := by
  constructor
  · rintro ⟨hpath, htop⟩
    refine ⟨hasMark_of_mem_changesFrom hpath, fun a ha hmark => ?_⟩
    obtain ⟨p, hp, rfl | habove⟩ := hmark.collected
    · exact htop p ha hp
    · exact htop p (DirtyPaths.mem_ancestors_trans habove ha) hp
  · rintro ⟨hmark, htop⟩
    refine ⟨?_, fun a ha hcollected => htop a ha (hasMark_of_mem_changesFrom hcollected)⟩
    obtain ⟨p, hp, rfl | habove⟩ := hmark.collected
    · exact hp
    · exact absurd (hasMark_of_mem_changesFrom hp) (htop p habove)

/-- **The changed paths are the topmost marks** of the document and of those that it encloses, in
order. So nothing is lost where a document is not looked into: marking every mark there is, in any
order, comes to the same record. -/
theorem changedPaths_topmost (doc : Document) (hdoc : "" ∉ doc.dirty.paths) :
    (∀ path, path ∈ doc.changedPaths.paths ↔
      doc.HasMark path ∧ ∀ a ∈ ancestors path, ¬ doc.HasMark a) ∧
    doc.changedPaths.paths.Pairwise (· < ·) ∧
    ∀ marks : List String, (∀ path, path ∈ marks ↔ doc.HasMark path) →
      DirtyPaths.empty.markAll marks = doc.changedPaths := by
  have htopmost : ∀ path, path ∈ doc.changedPaths.paths ↔
      doc.HasMark path ∧ ∀ a ∈ ancestors path, ¬ doc.HasMark a := by
    intro path
    have hmarks : ∀ p, DirtyPaths.IsMark (doc.changesFrom "") p ↔ p ∈ doc.changesFrom "" := by
      refine fun p => and_iff_left_of_imp ?_
      rintro hp rfl
      exact not_hasMark_empty_path hdoc (hasMark_of_mem_changesFrom hp)
    rw [changedPaths, DirtyPaths.mem_paths_markAll_empty_iff, ← topmost_collected_iff]
    simp only [hmarks]
  have hordered : ∀ marks, (DirtyPaths.empty.markAll marks).Ascending := fun marks =>
    DirtyPaths.Ascending.markAll (d := .empty) .nil marks
  refine ⟨htopmost, hordered _, fun marks hall => ?_⟩
  refine (hordered marks).ext (hordered _) fun path => ?_
  have hmarks : ∀ p, DirtyPaths.IsMark marks p ↔ doc.HasMark p := by
    intro p
    rw [DirtyPaths.IsMark, hall, and_iff_left_of_imp]
    rintro hp rfl
    exact not_hasMark_empty_path hdoc hp
  rw [DirtyPaths.mem_paths_markAll_empty_iff]
  simp only [hmarks]
  exact (htopmost path).symm

/-- A sign that has another colour. -/
def recolouredSign : Document where
  type := { (default : DocumentType) with
    name := "Sign"
    className := "Sign"
    fields := [.ofKind "colour" (.scalar .string)] }
  values := [("colour", .string "blue")]
  dirty := .markAll .empty ["colour"]
  raw := none

/-- A sheet with the sign in its legend and with another scale. -/
def rescaledSheet : Document where
  type := { (default : DocumentType) with
    name := "Sheet"
    className := "Sheet"
    fields := [.dict "legend" (.embedded recolouredSign.type), .ofKind "scale" (.scalar .int)] }
  values := [("legend", .dict [("sea", .document recolouredSign)]), ("scale", .int 500)]
  dirty := .markAll .empty ["scale"]
  raw := none

/-- The owner of an atlas, with another name. -/
def renamedOwner : Document where
  type := { (default : DocumentType) with
    name := "Person"
    className := "Person"
    collection := some "people"
    fields := [.ofKind "name" (.scalar .string)] }
  values := [("name", .string "Ann")]
  dirty := .markAll .empty ["name"]
  raw := none

/-- An atlas with the sheet on its cover and inside, where it is marked as a whole. The owner is
there, too, in an attribute that is declared as a reference. -/
def changedAtlas : Document where
  type := { (default : DocumentType) with
    name := "Atlas"
    className := "Atlas"
    collection := some "atlases"
    fields := [.ofKind "cover" (.embedded rescaledSheet.type),
      .ofKind "owner" (.reference "Person"), .list "sheets" (.embedded rescaledSheet.type)] }
  values := [("cover", .document rescaledSheet), ("owner", .document renamedOwner),
    ("sheets", .list [.document rescaledSheet])]
  dirty := .markAll .empty ["sheets.0"]
  raw := none

/-- The sheet inside is recorded as a whole, and the marks in it are not. -/
theorem changedPaths_topmost_atlas :
    "" ∉ changedAtlas.dirty.paths ∧
      changedAtlas.changedPaths.paths = ["cover.legend.sea.colour", "cover.scale", "sheets.0"] ∧
      (∀ path ∈ changedAtlas.changedPaths.paths,
        changedAtlas.HasMark path ∧ ∀ a ∈ ancestors path, ¬ changedAtlas.HasMark a) ∧
      changedAtlas.HasMark "sheets.0.legend.sea.colour" := by
  have hdoc : "" ∉ changedAtlas.dirty.paths := DirtyPaths.empty_path_not_mem ["sheets.0"]
  have hcolour : rescaledSheet.HasMark ("legend" ++ ".sea" ++ "." ++ "colour") :=
    .inside List.mem_cons_self rfl (.entry List.mem_cons_self (.document _))
      ⟨"", _, .self _, "colour", by decide, rfl⟩
  have hsheet : changedAtlas.HasMark ("sheets" ++ ".0" ++ "." ++ "legend.sea.colour") :=
    .inside (List.mem_of_getElem? (i := 2) rfl) rfl
      (.item (i := 0) rfl (.document rescaledSheet)) hcolour
  exact ⟨hdoc, by decide +kernel, fun path hpath =>
    ((changedPaths_topmost changedAtlas hdoc).1 path).mp hpath, hsheet⟩

end Document

end DocumentMapper
