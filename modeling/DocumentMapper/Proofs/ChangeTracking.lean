import DocumentMapper.Proofs.Faithfulness
import DocumentMapper.Proofs.FollowedEdits
import DocumentMapper.Proofs.SavedTwice

/-!
# Change tracking is complete and monotone

After any sequence of tracked calls, a path that leads to something else than before meets a changed
path: one that is equal, above or below. And whatever the changed paths covered, they still cover.

Documents inside an attribute that is declared as a reference are left out. They record what is
called on them, but references are never followed to collect it, wherever in the attribute they
stand.

## Main results

* `Document.Worked.complete`: what changed is reported;
* `Document.Worked.monotone`: what was covered is covered;
* `Document.Worked.tracked`: both.
-/

namespace DocumentMapper

open Text DirtyPaths

/-- Where maps have each key once, every path that comes from inside a value is reported. -/
theorem Nested.reported {d : DirtyPaths} {r : List String} {v : Value} {q : List String}
    (h : Nested d r v q) (hv : v.Representable) : Reported d r v q := by
  induction h with
  | item hitem _ ih => exact .item hitem (ih (representableAt_item hv.2 _ _ hitem))
  | entry hentry _ ih =>
    have hget := Entries.get?_of_mem hv.1 hentry
    exact .entry hget (ih (representableAt_entry hv.2 _ _ hget))
  | own huncovered hm => exact .own huncovered hm
  | @inside _ _ doc _ _ _ huncovered hreference hentry _ ih =>
    have hdoc : doc.Representable := hv
    obtain ⟨hkeys, hvalues⟩ := hdoc.values
    have hget := Entries.get?_of_mem hkeys hentry
    exact .inside huncovered hreference hget (ih (hvalues _ _ hget))

/-- The empty path is recorded exactly when it is so by its segments. -/
theorem DirtyPaths.empty_mem_segments_iff {d : DirtyPaths} :
    [""] ∈ d.segments ↔ "" ∈ d.paths := by
  rw [mem_segments]
  constructor
  · rintro ⟨path, hpath, hsegments⟩
    have hempty : dottedSegments path = dottedSegments "" := hsegments
    rwa [← dottedSegments_injective hempty]
  · exact fun h => ⟨"", h, rfl⟩

namespace Document

variable {doc doc' : Document}

/-- A path that is reported from a document is covered by the changed paths, as long as the document
has not recorded the empty path. -/
theorem covered_of_reported (hrecord : "" ∉ doc.dirty.paths) {q : List String}
    (h : Reported .empty [] (.document doc) q) : doc.changedPaths.Covered q := by
  refine changedPaths_covered h.nested ?_
  rintro rfl
  generalize hq : [""] = q at h
  cases h with
  | own _ hm => exact hrecord (empty_mem_segments_iff.mp (hq ▸ hm))
  | @inside _ _ _ name v q _ _ _ h =>
    have hlength := congrArg List.length hq
    have hfirst := List.length_pos_iff.mpr (dottedSegments_ne_nil name)
    have hrest := List.length_pos_iff.mpr h.nested.isSegment.1
    simp only [List.length_cons, List.length_nil, List.length_append] at hlength
    omega

/-- What no recorded change meets, nothing reported from the document meets. -/
theorem quiet_of_changedPaths (hrecord : "" ∉ doc.dirty.paths) {q : List String}
    (h : ∀ m ∈ doc.changedPaths.segments, ¬ Meets m q) :
    Quiet .empty [] .free (some (.document doc)) q := by
  refine ⟨fun m hm => absurd hm List.not_mem_nil, ?_⟩
  rintro - v p hv hp hmeets
  obtain rfl := Option.some.inj hv
  obtain ⟨m, hm, hbegins⟩ := covered_of_reported hrecord hp
  refine h m hm ?_
  rcases hmeets with hpq | hqp
  · exact .inl (hbegins.trans hpq)
  · exact List.prefix_or_prefix_of_prefix hbegins hqp

/-- **What changed is reported**: a path to something else than before meets a changed path. -/
theorem Worked.complete (h : doc.Worked doc') (hrecord : "" ∉ doc.dirty.paths)
    {steps : List ViewStep} (hsteps : steps ≠ [])
    (hchanged : ¬ Unchanged (doc.live steps).1 (doc.live steps).2 (doc'.live steps).2) :
    ∃ p ∈ doc'.changedPaths.paths, p = ViewStep.path steps ∨
      isAbove p (ViewStep.path steps) = true ∨ isAbove (ViewStep.path steps) p = true := by
  have hcarries := h.carries
  have hrecord' : "" ∉ doc'.dirty.paths := fun hm =>
    hrecord (empty_mem_segments_iff.mp (hcarries.unnamed (empty_mem_segments_iff.mpr hm)))
  by_contra hnone
  refine hchanged (Followed.unchanged_walk steps
    (hcarries.followed .empty [] .free _ (doc.followed_self _ _ _))
    (quiet_of_changedPaths hrecord' fun m hm hmeets => hnone ?_))
  obtain ⟨p, hp, rfl⟩ := mem_segments.mp hm
  rw [← ViewStep.dottedSegments_path hsteps] at hmeets
  refine ⟨p, hp, ?_⟩
  rcases hmeets with hbegins | hbegins <;> have habove := eq_or_isAbove_iff.mpr hbegins <;>
    rw [Bool.or_eq_true, beq_iff_eq] at habove
  · exact habove.imp id .inl
  · exact habove.imp Eq.symm .inr

/-- **What was covered is covered.** -/
theorem Worked.monotone (h : doc.Worked doc') (hdoc : doc.Representable)
    (hrecord : "" ∉ doc.dirty.paths) {path : String} (hpath : doc.changedPaths.covers path = true) :
    doc'.changedPaths.covers path = true := by
  have hcarries := h.carries
  have hrecord' : "" ∉ doc'.dirty.paths := fun hm =>
    hrecord (empty_mem_segments_iff.mp (hcarries.unnamed (empty_mem_segments_iff.mpr hm)))
  rw [covers_iff] at hpath ⊢
  obtain ⟨m, hm, hbegins⟩ := hpath
  obtain ⟨p, hpm, hp⟩ := hcarries.reported m ((nested_of_changedPaths hm).reported hdoc)
  exact (covered_of_reported hrecord' hp).below (hpm.trans hbegins)

/-- **Change tracking is complete and monotone.** -/
theorem Worked.tracked (h : doc.Worked doc') (hdoc : doc.Representable)
    (hrecord : "" ∉ doc.dirty.paths) :
    (∀ steps, steps ≠ [] →
      ¬ Unchanged (doc.live steps).1 (doc.live steps).2 (doc'.live steps).2 →
      ∃ p ∈ doc'.changedPaths.paths, p = ViewStep.path steps ∨
        isAbove p (ViewStep.path steps) = true ∨ isAbove (ViewStep.path steps) p = true) ∧
    ∀ path, doc.changedPaths.covers path = true → doc'.changedPaths.covers path = true :=
  ⟨fun _ hsteps hchanged => h.complete hrecord hsteps hchanged,
    fun _ hpath => h.monotone hdoc hrecord hpath⟩

end Document

/-! ### An author in a list -/

/-- An author. -/
def author (name : String) : Document :=
  ⟨authorType, [("name", .string name)], .empty, none⟩

/-- Gives the documents that are visited another name. -/
def renamer : Visitor Unit :=
  ⟨fun l => ((), l), fun d => ((), d), fun doc => ((), doc.assign [("name", .string "new")]),
    fun _ => ()⟩

/-- Entering an item passes no attribute. -/
theorem Value.namedAlong_item (i : Nat) (v : Value) : v.NamedAlong [.item i] := by
  have hend : ∀ w : Value, w.NamedAlong [] := by
    intro w
    cases w <;> trivial
  cases v <;> first | trivial | exact fun w _ => hend w

/-- Changing the name of the first author of an attribute is a tracked call. -/
theorem worked_rename {doc : Document} {name : String} (hname : doc.type.attributeOf name ≠ "") :
    doc.Worked (doc.viewed .field name [.item 0] renamer) := by
  have hassign : ∀ e : Document, e.Worked (e.assign [("name", .string "new")]) := by
    intro e
    have hattribute : e.type.attributeOf "name" = "name" := rfl
    exact .assign (.refl e) (by rw [hattribute]; decide) (.string "new")
  have hsteps : doc.NamedAlong .field name [.item 0] := by
    intro key opened _
    exact Value.namedAlong_item 0 _
  exact .view (.refl doc) hname hsteps (fun _ => .refl) (fun _ => .refl) hassign

/-- The way to the name of the first author. -/
def nameOfFirst (name : String) : List ViewStep :=
  [.key name, .item 0, .key "name"]

/-- Libraries have authors. -/
def libraryType : DocumentType where
  name := "Library"
  className := "Library"
  collection := some "libraries"
  fields := [.list "authors" (.embedded authorType)]
  primaryKey := none
  isDynamic := false
  allowsInheritance := false
  superclass := none

/-- A library with one author. -/
def library : Document :=
  ⟨libraryType, [("authors", .list [.document (author "old")])], .empty, none⟩

theorem tracked_library :
    library.Worked (library.viewed .field "authors" [.item 0] renamer) ∧ library.Representable ∧
      "" ∉ library.dirty.paths ∧
      ∃ p ∈ (library.viewed .field "authors" [.item 0] renamer).changedPaths.paths,
        p = "authors.0.name" ∨ isAbove p "authors.0.name" = true ∨
          isAbove "authors.0.name" p = true := by
  have hworked : library.Worked (library.viewed .field "authors" [.item 0] renamer) :=
    worked_rename (by decide)
  have hdoc : library.Representable := by
    refine ⟨by decide, ⟨by decide, ?_, trivial⟩, trivial⟩
    exact ⟨by decide, trivial, trivial⟩
  refine ⟨hworked, hdoc, by decide, ?_⟩
  refine (hworked.tracked hdoc (by decide)).1 (nameOfFirst "authors") (List.cons_ne_nil _ _) ?_
  intro hsame
  have hname : some (Value.string "old") = some (.string "new") := hsame.eq_leaf trivial
  simp at hname

/-- A post that has its author in a list. -/
def shelvedPost : Document :=
  ⟨postType, [("author", .list [.document (author "old")])], .empty, none⟩

/-- What some steps lead to, in references too. -/
def Value.reach? : List ViewStep → Value → Option Value
  | [], v => some v
  | .item i :: rest, .list items => items[i]?.bind (reach? rest)
  | .key name :: rest, .dict entries => (Entries.get? entries name).bind (reach? rest)
  | .key name :: rest, .document doc => (Entries.get? doc.values name).bind (reach? rest)
  | _ :: _, _ => none

/-- The author does not sit directly in the reference attribute, its name changes, and nothing is
reported. -/
theorem shelvedPost_not_tracked :
    ∃ post, shelvedPost.Worked post ∧ shelvedPost.Representable ∧ "" ∉ shelvedPost.dirty.paths ∧
      (∃ items, Entries.get? shelvedPost.values "author" = some (.list items)) ∧
      (Value.document shelvedPost).reach? (nameOfFirst "author") = some (.string "old") ∧
      (Value.document post).reach? (nameOfFirst "author") = some (.string "new") ∧
      ¬ ∃ p ∈ post.changedPaths.paths, p = "author.0.name" ∨
        isAbove p "author.0.name" = true ∨ isAbove "author.0.name" p = true := by
  have hworked : shelvedPost.Worked (shelvedPost.viewed .field "author" [.item 0] renamer) :=
    worked_rename (by decide)
  have hpaths : (shelvedPost.viewed .field "author" [.item 0] renamer).changedPaths.paths = [] := rfl
  have hdoc : shelvedPost.Representable := by
    refine ⟨by decide, ⟨by decide, ?_, trivial⟩, trivial⟩
    exact ⟨by decide, trivial, trivial⟩
  refine ⟨_, hworked, hdoc, by decide, ⟨_, rfl⟩, rfl, rfl, ?_⟩
  rw [hpaths]
  simp

end DocumentMapper
