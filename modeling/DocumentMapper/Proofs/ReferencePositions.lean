import DocumentMapper.Proofs.ChangeTracking
import DocumentMapper.Proofs.DeltaAgreement

/-!
# Changed paths and referenced documents

A document that is held where a reference is declared is stored as a reference, so a changed path
that leads into it has no place in the store. Attributes that are declared as references are never
entered to collect changes, at any depth. The items of a list of references and the values of a dict
of references are: a document that stands there and reports changes has them among the changed paths
of the document around it.

`Reaches` says which documents the collection comes to and which field describes them there.

## Main results

* `Nested.leads`, `Reaches.nested`: where the changes below a reference come from, and that they are
  reported;
* `Document.changedPaths_leadIntoReference_iff`: when a changed path leads into a referenced
  document, and what that means for the patch.
-/

namespace DocumentMapper

open Text DirtyPaths

/-! ### Names of one segment -/

mutual

/-- The keys and the names of attributes inside the value have no dot, so each is one segment of a
path. -/
def Value.Undotted : Value → Prop
  | .list items => undottedItems items
  | .dict entries => undottedEntries entries
  | .document doc => doc.Undotted
  | _ => True
termination_by structural v => v

/-- The same for some values. -/
def undottedItems : List Value → Prop
  | [] => True
  | v :: vs => v.Undotted ∧ undottedItems vs
termination_by structural vs => vs

/-- The same for some entries. -/
def undottedEntries : List (String × Value) → Prop
  | [] => True
  | (key, v) :: rest => IsSegment key ∧ v.Undotted ∧ undottedEntries rest
termination_by structural es => es

/-- The same for a document. -/
def Document.Undotted : Document → Prop
  | ⟨_, values, _, _⟩ => undottedEntries values
termination_by structural doc => doc

end

theorem undotted_item {items : List Value} (h : undottedItems items) {i : Nat} {v : Value}
    (hv : items[i]? = some v) : v.Undotted := by
  induction items generalizing i with
  | nil => simp at hv
  | cons w ws ih =>
    cases i with
    | zero =>
      obtain rfl : w = v := by simpa using hv
      exact h.1
    | succ i => exact ih h.2 (by simpa using hv)

theorem undotted_entry {entries : List (String × Value)} (h : undottedEntries entries)
    {key : String} {v : Value} (hv : (key, v) ∈ entries) : IsSegment key ∧ v.Undotted := by
  induction entries with
  | nil => cases hv
  | cons e rest ih =>
    obtain ⟨k, w⟩ := e
    rcases List.mem_cons.mp hv with heq | hv
    · obtain ⟨rfl, rfl⟩ := Prod.mk.inj heq
      exact ⟨h.1, h.2.1⟩
    · exact ih h.2.2 hv

theorem Document.Undotted.values {doc : Document} (h : doc.Undotted) :
    undottedEntries doc.values := by
  obtain ⟨type, values, dirty, raw⟩ := doc
  exact h

/-- A value in which paths find every part: the maps inside have each key once, and no key has a
dot. -/
structure Value.Addressable (v : Value) : Prop where
  representable : v.Representable
  undotted : v.Undotted

namespace Value.Addressable

variable {v : Value}

/-- An item is found at its position. -/
theorem item {items : List Value} (h : (Value.list items).Addressable) {i : Nat}
    (hv : items[i]? = some v) : v.Addressable ∧ ∀ f, (Place.mk f (some (.list items))).enter
      (toString i) = (⟨f.bind (·.kind.element?), some v⟩, toString i) := by
  have hbound : i < items.length := (List.getElem?_eq_some_iff.mp hv).1
  have hlength : items.length ≤ Number.wordCount := h.representable.1
  refine ⟨⟨representableAt_item h.representable.2 _ _ hv, undotted_item h.undotted hv⟩, fun f => ?_⟩
  rw [Place.enter_item (by omega), hv]

/-- A value is found under its key. -/
theorem entry {entries : List (String × Value)} (h : (Value.dict entries).Addressable)
    {key : String} (hv : (key, v) ∈ entries) : v.Addressable ∧ dottedSegments key = [key] ∧
      ∀ f, (Place.mk f (some (.dict entries))).enter key =
        (⟨(f.bind (·.kind.element?)).map (·.renamed key), some v⟩, key) := by
  obtain ⟨hkey, hvalue⟩ := undotted_entry h.undotted hv
  have hget := Entries.get?_of_mem h.representable.1 hv
  refine ⟨⟨representableAt_entry h.representable.2 _ _ hget, hvalue⟩,
    dottedSegments_of_isSegment hkey, fun f => ?_⟩
  rw [Place.enter_entry, hget]

/-- An attribute is found under its name. -/
theorem inside {doc : Document} (h : (Value.document doc).Addressable) {name : String}
    (hv : (name, v) ∈ doc.values) : v.Addressable ∧ dottedSegments name = [name] ∧
      ∀ f, (Place.mk f (some (.document doc))).enter name =
        (⟨doc.type.describe? name, some v⟩, doc.storedName name) := by
  have hdoc : doc.Representable := h.representable
  have hundotted : doc.Undotted := h.undotted
  obtain ⟨hkeys, hvalues⟩ := hdoc.values
  obtain ⟨hname, hvalue⟩ := undotted_entry hundotted.values hv
  have hget := Entries.get?_of_mem hkeys hv
  refine ⟨⟨hvalues _ _ hget, hvalue⟩, dottedSegments_of_isSegment hname, fun f => ?_⟩
  rw [Place.enter_attribute, Place.inDocument, hget]

end Value.Addressable

/-! ### Where references stand -/

/-- Describing the attributes that are not declared declares no reference. -/
theorem DocumentType.isReference_describe? (t : DocumentType) (name : String) :
    (t.describe? name).any (fun f => f.kind.isReference) =
      (t.field? name).any fun f => f.kind.isReference := by
  unfold describe?
  cases t.field? name with
  | some f => rfl
  | none => cases t.isDynamic <;> rfl

namespace Place

/-- Whether a place is declared as a reference and holds a document, embedded or linked. -/
def holdsReferenced (p : Place) : Bool :=
  p.field.any (fun f => f.kind.isReference) && (p.value.bind Value.asDocument?).isSome

/-- Whether a path from a place leads into a document that is held where a reference is declared. -/
def leadsIntoReference (p : Place) : List String → Bool
  | [] => false
  | s :: rest => p.holdsReferenced || (p.enter s).1.leadsIntoReference rest

theorem leadsIntoReference_cons {p : Place} {s : String} {rest : List String} :
    p.leadsIntoReference (s :: rest) = true ↔
      p.holdsReferenced = true ∨ (p.enter s).1.leadsIntoReference rest = true := by
  rw [leadsIntoReference, Bool.or_eq_true]

/-- The place and the names in the store at the end of two paths, one after the other. -/
theorem follow_append (p : Place) (above below : List String) :
    p.follow (above ++ below) =
      (((p.follow above).1.follow below).1,
        (p.follow above).2 ++ ((p.follow above).1.follow below).2) := by
  induction above generalizing p with
  | nil => rfl
  | cons s above ih => rw [List.cons_append, follow_cons, ih, follow_cons, List.cons_append]

/-- A path that is not empty is not empty in the store. -/
theorem follow_snd_ne_nil {p : Place} {q : List String} (h : q ≠ []) : (p.follow q).2 ≠ [] := by
  cases q with
  | nil => exact absurd rfl h
  | cons s rest => exact List.cons_ne_nil _ _

/-- **A path leads into a referenced document exactly when it goes on behind one.** -/
theorem leadsIntoReference_iff {p : Place} {q : List String} :
    p.leadsIntoReference q = true ↔
      ∃ above below, q = above ++ below ∧ below ≠ [] ∧
        (p.follow above).1.holdsReferenced = true := by
  induction q generalizing p with
  | nil =>
    constructor
    · exact fun h => (Bool.false_ne_true h).elim
    · rintro ⟨above, below, hq, hbelow, -⟩
      exact absurd (List.append_eq_nil_iff.mp hq.symm).2 hbelow
  | cons s q ih =>
    rw [leadsIntoReference_cons, ih]
    constructor
    · rintro (hp | ⟨above, below, rfl, hbelow, hheld⟩)
      · exact ⟨[], s :: q, rfl, List.cons_ne_nil _ _, hp⟩
      · exact ⟨s :: above, below, rfl, hbelow, hheld⟩
    · rintro ⟨above, below, hq, hbelow, hheld⟩
      cases above with
      | nil => exact .inl hheld
      | cons t above =>
        obtain ⟨rfl, rfl⟩ := List.cons.inj hq
        exact .inr ⟨above, below, rfl, hbelow, hheld⟩

/-- A path that leads into a reference inside a document does so wherever the document stands. -/
theorem leadsIntoReference_document {f : Option Field} {doc : Document} {q : List String}
    (h : doc.place.leadsIntoReference q = true) :
    (Place.mk f (some (.document doc))).leadsIntoReference q = true := by
  cases q with
  | nil => exact h
  | cons s rest =>
    have hrest := (leadsIntoReference_cons.mp h).resolve_left Bool.false_ne_true
    exact leadsIntoReference_cons.mpr (.inr hrest)

/-- A path that goes on where another one leads, leads into a reference if the rest of it does. -/
theorem leadsIntoReference_append {p : Place} {above below : List String}
    (h : (p.follow above).1.leadsIntoReference below = true) :
    p.leadsIntoReference (above ++ below) = true := by
  obtain ⟨above', below', rfl, hbelow, hheld⟩ := leadsIntoReference_iff.mp h
  refine leadsIntoReference_iff.mpr
    ⟨above ++ above', below', (List.append_assoc _ _ _).symm, hbelow, ?_⟩
  rwa [follow_append]

end Place

/-- Whether a path of a document leads into a document that is held where a reference is
declared. -/
def Document.leadsIntoReference (doc : Document) (path : String) : Bool :=
  doc.place.leadsIntoReference (dottedSegments path)

/-! ### The documents that are asked for their changes -/

/-- Collecting the changes inside a value, which stands at a position of a document with changed
paths of its own and is described by a field, comes to a document along a path, and a field
describes it there. Documents behind a changed path are left out, and so are those in an attribute
that is declared as a reference. -/
inductive Reaches : DirtyPaths → List String → Option Field → Value →
    List String → Option Field → Document → Prop
  | here {d : DirtyPaths} {r : List String} {f : Option Field} {doc : Document}
      (huncovered : ¬ d.Covered r) : Reaches d r f (.document doc) [] f doc
  | item {d : DirtyPaths} {r : List String} {f g : Option Field} {items : List Value} {i : Nat}
      {v : Value} {q : List String} {inner : Document} (hv : items[i]? = some v)
      (h : Reaches d (r ++ [toString i]) (f.bind (·.kind.element?)) v q g inner) :
      Reaches d r f (.list items) (toString i :: q) g inner
  | entry {d : DirtyPaths} {r : List String} {f g : Option Field}
      {entries : List (String × Value)} {key : String} {v : Value} {q : List String}
      {inner : Document} (hv : (key, v) ∈ entries)
      (h : Reaches d (r ++ dottedSegments key) ((f.bind (·.kind.element?)).map (·.renamed key)) v q
        g inner) : Reaches d r f (.dict entries) (dottedSegments key ++ q) g inner
  | inside {d : DirtyPaths} {r : List String} {f g : Option Field} {doc : Document} {name : String}
      {v : Value} {q : List String} {inner : Document} (huncovered : ¬ d.Covered r)
      (hreference : (doc.type.field? name).any (fun f => f.kind.isReference) = false)
      (hv : (name, v) ∈ doc.values)
      (h : Reaches doc.dirty (dottedSegments name) (doc.type.describe? name) v q g inner) :
      Reaches d r f (.document doc) (dottedSegments name ++ q) g inner

namespace Reaches

variable {d : DirtyPaths} {r : List String} {f g : Option Field} {v : Value} {q : List String}
  {inner : Document}

/-- **What a reached document reports is reported.** -/
theorem nested (h : Reaches d r f v q g inner) {rest : List String}
    (hrest : Nested .empty [] (.document inner) rest) : Nested d r v (q ++ rest) := by
  induction h with
  | here huncovered => exact nested_document_iff.mpr ⟨huncovered, hrest⟩
  | item hv _ ih => exact .item hv (ih hrest)
  | entry hv _ ih =>
    rw [List.append_assoc]
    exact .entry hv (ih hrest)
  | inside huncovered hreference hv _ ih =>
    rw [List.append_assoc]
    exact .inside huncovered hreference hv (ih hrest)

/-- A reached document lives where its path leads to. -/
theorem follow (h : Reaches d r f v q g inner) (hv : v.Addressable) :
    ((Place.mk f (some v)).follow q).1 = ⟨g, some (.document inner)⟩ := by
  induction h with
  | here => rfl
  | item hitem _ ih =>
    obtain ⟨hpart, henter⟩ := hv.item hitem
    rw [Place.follow_cons, henter]
    exact ih hpart
  | entry hentry _ ih =>
    obtain ⟨hpart, hkey, henter⟩ := hv.entry hentry
    rw [hkey, List.singleton_append, Place.follow_cons, henter]
    exact ih hpart
  | inside _ _ hentry _ ih =>
    obtain ⟨hpart, hname, henter⟩ := hv.inside hentry
    rw [hname, List.singleton_append, Place.follow_cons, henter]
    exact ih hpart

/-- Where collecting the changes begins, the field is the one of the beginning. -/
theorem eq_of_nil (h : Reaches d r f v [] g inner) : g = f := by
  generalize hq : ([] : List String) = q at h
  cases h with
  | here => rfl
  | item => cases hq
  | entry | inside => exact absurd (List.append_eq_nil_iff.mp hq.symm).1 (dottedSegments_ne_nil _)

/-- **The attributes that are declared as references are never entered**: a document that is reached
where a reference is declared is an item of a list or a value of a dict. -/
theorem in_container (h : Reaches d r f v q g inner)
    (hreference : g.any (fun f => f.kind.isReference) = true) (hv : v.Addressable) :
    q = [] ∨ ∃ above s, q = above ++ [s] ∧
      ((Place.mk f (some v)).follow above).1.value.any Value.isContainer = true := by
  induction h with
  | here => exact .inl rfl
  | @item _ _ _ _ _ i _ _ _ hitem _ ih =>
    obtain ⟨hpart, henter⟩ := hv.item hitem
    right
    rcases ih hreference hpart with rfl | ⟨above, s, rfl, hcontainer⟩
    · exact ⟨[], _, rfl, rfl⟩
    · refine ⟨toString i :: above, s, rfl, ?_⟩
      rwa [Place.follow_cons, henter]
  | @entry _ _ _ _ _ key _ _ _ hentry _ ih =>
    obtain ⟨hpart, hkey, henter⟩ := hv.entry hentry
    rw [hkey, List.singleton_append]
    right
    rcases ih hreference hpart with rfl | ⟨above, s, rfl, hcontainer⟩
    · exact ⟨[], _, rfl, rfl⟩
    · refine ⟨key :: above, s, rfl, ?_⟩
      rwa [Place.follow_cons, henter]
  | @inside _ _ _ _ _ name _ _ _ _ hattribute hentry hreach ih =>
    obtain ⟨hpart, hname, henter⟩ := hv.inside hentry
    rw [hname, List.singleton_append]
    right
    rcases ih hreference hpart with rfl | ⟨above, s, rfl, hcontainer⟩
    · rw [hreach.eq_of_nil, DocumentType.isReference_describe?, hattribute] at hreference
      cases hreference
    · refine ⟨name :: above, s, rfl, ?_⟩
      rwa [Place.follow_cons, henter]

end Reaches

/-! ### Changes below a reference -/

/-- **Where a change below a reference comes from**: a reached document reports it that stands where
a reference is declared, or that has recorded a path which leads into a reference by itself. -/
theorem Nested.leads {d : DirtyPaths} {r : List String} {v : Value} {q : List String}
    (h : Nested d r v q) (hv : v.Addressable) {f : Option Field}
    (hleads : (Place.mk f (some v)).leadsIntoReference q = true) :
    ∃ above g inner below, Reaches d r f v above g inner ∧
      Nested .empty [] (.document inner) below ∧ q = above ++ below ∧
      (g.any (fun f => f.kind.isReference) = true ∨
        below ∈ inner.dirty.segments ∧ inner.place.leadsIntoReference below = true) := by
  induction h generalizing f with
  | item hitem _ ih =>
    obtain ⟨hpart, henter⟩ := hv.item hitem
    rcases Place.leadsIntoReference_cons.mp hleads with hheld | hleads
    · simp [Place.holdsReferenced, Value.asDocument?] at hheld
    · rw [henter] at hleads
      obtain ⟨above, g, inner, below, hreach, hbelow, rfl, hcase⟩ := ih hpart hleads
      exact ⟨_, g, inner, below, .item hitem hreach, hbelow, rfl, hcase⟩
  | entry hentry _ ih =>
    obtain ⟨hpart, hkey, henter⟩ := hv.entry hentry
    rw [hkey, List.singleton_append] at hleads
    rcases Place.leadsIntoReference_cons.mp hleads with hheld | hleads
    · simp [Place.holdsReferenced, Value.asDocument?] at hheld
    · rw [henter] at hleads
      obtain ⟨above, g, inner, below, hreach, hbelow, rfl, hcase⟩ := ih hpart hleads
      exact ⟨_, g, inner, below, .entry hentry hreach, hbelow, (List.append_assoc _ _ _).symm,
        hcase⟩
  | @own _ _ doc q huncovered hm =>
    have hown : Nested .empty [] (.document doc) q := .own (not_covered_empty _) hm
    refine ⟨[], f, doc, q, .here huncovered, hown, rfl, ?_⟩
    cases q with
    | nil => exact absurd hleads Bool.false_ne_true
    | cons s rest =>
      rcases Place.leadsIntoReference_cons.mp hleads with hheld | hleads
      · exact .inl (Bool.and_eq_true_iff.mp hheld).1
      · exact .inr ⟨hm, Place.leadsIntoReference_cons.mpr (.inr hleads)⟩
  | @inside _ _ doc name v q huncovered hreference hentry hq ih =>
    have hinside : Nested .empty [] (.document doc) (dottedSegments name ++ q) :=
      .inside (not_covered_empty _) hreference hentry hq
    obtain ⟨hpart, hname, henter⟩ := hv.inside hentry
    rw [hname, List.singleton_append] at hleads
    rcases Place.leadsIntoReference_cons.mp hleads with hheld | hleads
    · exact ⟨[], f, doc, _, .here huncovered, hinside, rfl,
        .inl (Bool.and_eq_true_iff.mp hheld).1⟩
    · rw [henter] at hleads
      obtain ⟨above, g, inner, below, hreach, hbelow, rfl, hcase⟩ := ih hpart hleads
      exact ⟨_, g, inner, below, .inside huncovered hreference hentry hreach, hbelow,
        (List.append_assoc _ _ _).symm, hcase⟩

namespace Document

variable {doc : Document}

/-- Collecting the changes of a document comes to a document inside it, or to itself. -/
def Reaches (doc : Document) (q : List String) (f : Option Field) (inner : Document) : Prop :=
  DocumentMapper.Reaches .empty [] none (.document doc) q f inner

/-- **References are followed**: collecting the changes comes to a document with changes to report
where a reference is declared. Nothing above it counts as changed. -/
def FollowsReference (doc : Document) : Prop :=
  ∃ q f inner, doc.Reaches q (some f) inner ∧ f.kind.isReference = true ∧
    ¬ doc.changedPaths.Covered q ∧ inner.changesFrom "" ≠ []

/-- A document inside has recorded a path that leads into a reference by itself, and the path is
among the changed ones. -/
def RecordsBelowReference (doc : Document) : Prop :=
  ∃ q f inner, doc.Reaches q f inner ∧ ∃ m ∈ inner.dirty.segments,
    inner.place.leadsIntoReference m = true ∧ q ++ m ∈ doc.changedPaths.segments

/-- A document reports changes exactly when some come from it or from inside it. -/
theorem changesFrom_ne_nil_iff {front : String} :
    doc.changesFrom front ≠ [] ↔ ∃ q, Nested .empty [] (.document doc) q := by
  constructor
  · intro h
    obtain ⟨path, hpath⟩ := List.exists_mem_of_ne_nil _ h
    obtain ⟨q, hq, -⟩ := (mem_changesFrom doc).mp hpath
    exact ⟨q, hq⟩
  · rintro ⟨q, hq⟩
    exact List.ne_nil_of_mem ((mem_changesFrom doc).mpr ⟨q, hq, rfl⟩)

/-- What is above a changed path is not covered by the changed paths. -/
theorem not_covered_above {above below : List String} (hbelow : below ≠ [])
    (h : above ++ below ∈ doc.changedPaths.segments) : ¬ doc.changedPaths.Covered above := by
  rintro ⟨m, hm, hmabove⟩
  obtain rfl := doc.antichain_changedPaths m hm _ h (hmabove.trans (List.prefix_append _ _))
  have hlength := hmabove.length_le
  rw [List.length_append] at hlength
  exact hbelow (List.eq_nil_of_length_eq_zero (by omega))

/-- What a reached document reports where nothing above it counts as changed, counts as changed. -/
theorem Reaches.changed {q : List String} {f : Field} {inner : Document}
    (h : doc.Reaches q (some f) inner) (huncovered : ¬ doc.changedPaths.Covered q)
    (hinner : inner.changesFrom "" ≠ []) :
    ∃ below, below ≠ [] ∧ q ++ below ∈ doc.changedPaths.segments := by
  obtain ⟨rest, hrest⟩ := changesFrom_ne_nil_iff.mp hinner
  have hne : q ++ rest ≠ [""] := by
    intro heq
    have hq : q ≠ [] := by
      rintro rfl
      cases Reaches.eq_of_nil h
    have hlength := congrArg List.length heq
    have hfirst := List.length_pos_iff.mpr hq
    have hlast := List.length_pos_iff.mpr hrest.isSegment.1
    simp only [List.length_append, List.length_cons, List.length_nil] at hlength
    omega
  obtain ⟨m, hm, hprefix⟩ := changedPaths_covered (Reaches.nested h hrest) hne
  rcases List.prefix_or_prefix_of_prefix hprefix (List.prefix_append q rest) with hmq | ⟨below, rfl⟩
  · exact absurd ⟨m, hm, hmq⟩ huncovered
  · refine ⟨below, ?_, hm⟩
    rintro rfl
    exact huncovered ⟨q ++ [], hm, by simp⟩

/-- **When a changed path leads into a referenced document**: exactly when references are followed,
or a document has recorded such a path by itself. -/
theorem exists_leadsIntoReference_iff (hdoc : doc.Representable) (hnames : doc.Undotted) :
    (∃ path ∈ doc.changedPaths.paths, doc.leadsIntoReference path = true) ↔
      doc.FollowsReference ∨ doc.RecordsBelowReference := by
  constructor
  · rintro ⟨path, hpath, hleads⟩
    have hm := mem_segments.mpr ⟨path, hpath, rfl⟩
    obtain ⟨above, g, inner, below, hreach, hbelow, hparts, hcase⟩ :=
      (nested_of_changedPaths hm).leads ⟨hdoc, hnames⟩ hleads
    rw [hparts] at hm
    rcases hcase with hreference | ⟨hrecord, hown⟩
    · cases g with
      | none => cases hreference
      | some f =>
        exact .inl ⟨above, f, inner, hreach, hreference, not_covered_above hbelow.isSegment.1 hm,
          changesFrom_ne_nil_iff.mpr ⟨below, hbelow⟩⟩
    · exact .inr ⟨above, g, inner, hreach, below, hrecord, hown, hm⟩
  · have hpaths : ∀ q ∈ doc.changedPaths.segments, doc.place.leadsIntoReference q = true →
        ∃ path ∈ doc.changedPaths.paths, doc.leadsIntoReference path = true := by
      intro q hq hleads
      obtain ⟨path, hpath, rfl⟩ := mem_segments.mp hq
      exact ⟨path, hpath, hleads⟩
    rintro (⟨q, f, inner, hreach, hf, huncovered, hinner⟩ | ⟨q, g, inner, hreach, m, -, hown, hm⟩)
    · obtain ⟨below, hbelow, hm⟩ := hreach.changed huncovered hinner
      refine hpaths _ hm (Place.leadsIntoReference_iff.mpr ⟨q, below, rfl, hbelow, ?_⟩)
      have hplace : (doc.place.follow q).1 = ⟨some f, some (.document inner)⟩ :=
        DocumentMapper.Reaches.follow hreach ⟨hdoc, hnames⟩
      simp [hplace, Place.holdsReferenced, hf, Value.asDocument?]
    · refine hpaths _ hm (Place.leadsIntoReference_append ?_)
      have hplace : (doc.place.follow q).1 = ⟨g, some (.document inner)⟩ :=
        DocumentMapper.Reaches.follow hreach ⟨hdoc, hnames⟩
      rw [hplace]
      exact Place.leadsIntoReference_document hown

/-- A path that leads into a referenced document is stored below the reference. -/
theorem isAbove_locate {path : String} (h : doc.leadsIntoReference path = true) :
    ∃ above, (doc.locate above).1.holdsReferenced = true ∧
      isAbove (doc.locate above).2 (doc.locate path).2 = true := by
  obtain ⟨above, below, hparts, hbelow, hheld⟩ := Place.leadsIntoReference_iff.mp h
  have hne : above ≠ [] := by
    rintro rfl
    cases hheld
  have hsegments : dottedSegments (dotted above) = above := by
    refine dottedSegments_dotted hne fun s hs => ?_
    exact isSegment_of_mem_dottedSegments (hparts ▸ List.mem_append_left _ hs)
  have habove := locate_eq doc (dotted above)
  rw [hsegments] at habove
  have hpath := locate_eq doc path
  rw [hparts, Place.follow_append, dotted_append (Place.follow_snd_ne_nil hne)
    (Place.follow_snd_ne_nil hbelow)] at hpath
  refine ⟨dotted above, by rw [habove]; exact hheld, ?_⟩
  rw [habove, hpath, isAbove_iff]
  exact ⟨_, dottedSegments_ne_nil _, dottedSegments_append _ _⟩

end Document

/-! ### Keys below a stored reference -/

/-- **Where names are plain, what is stored below a place leads through it**: a path whose names in
the store begin with those of another path begins with that path, if something lives there. -/
theorem Place.prefix_of_stored {p : Place} {paths : List (List String)} {a q : List String}
    (hplain : ∀ front inner, (p.follow front).1.value = some (.document inner) →
      inner.PlainlyNamed fun name => ∃ rest, front ++ name :: rest ∈ paths)
    (ha : ∀ s ∈ a, IsSegment s) (hlives : (p.follow a).1.value ≠ none) (hpath : q ∈ paths)
    (hq : ∀ s ∈ q, IsSegment s)
    (h : (p.follow a).2.flatMap dottedSegments <+: (p.follow q).2.flatMap dottedSegments) :
    a <+: q := by
  have hundotted : ∀ front doc, (p.follow front).1.value = some (.document doc) →
      ∀ f ∈ doc.type.fields, IsSegment f.storageName :=
    fun front doc hdoc => (hplain front doc hdoc).undotted
  rw [flatMap_dottedSegments (isSegment_follow hundotted ha),
    flatMap_dottedSegments (isSegment_follow hundotted hq)] at h
  refine prefix_of_follow (fun front s a' t q' hfront hfront' inner hinner hname => ?_) h
  have hnames := hplain front inner hinner
  have hvalue : (Entries.get? inner.values s).isSome := by
    rw [Option.isSome_iff_ne_none]
    intro hnone
    rw [hfront, follow_append, follow_cons] at hlives
    exact hlives (follow_of_none ((enter_document hinner s).1.trans hnone) a')
  have hreached := hnames.reached t ⟨q', hfront' ▸ hpath⟩
  exact hnames.eq_of_storedName (hnames.held s hvalue) hreached hname

namespace Document

variable {doc : Document}

/-- Every document inside, and the document itself, is plainly named, together with the names that
the changed paths reach from there. -/
def PlainlyStored (doc : Document) : Prop :=
  ∀ q inner, (doc.place.follow q).1.value = some (.document inner) →
    inner.PlainlyNamed fun name => ∃ rest, q ++ name :: rest ∈ doc.changedPaths.segments

/-- The patch of a document has a key below what is stored for a referenced document. -/
def WritesBelowReference (doc : Document) (patch : Patch) : Prop :=
  ∃ key ∈ patch.paths, ∃ above, (doc.locate above).1.holdsReferenced = true ∧
    isAbove (doc.locate above).2 key = true

/-- **The patch has a key below a stored reference exactly when a changed path leads into the
referenced document.** -/
theorem writesBelowReference_iff {patch : Patch} (hpatch : doc.incrementalPatch.Gives patch)
    (hplain : doc.PlainlyStored) :
    doc.WritesBelowReference patch ↔
      ∃ path ∈ doc.changedPaths.paths, doc.leadsIntoReference path = true := by
  have hkeys := (gives_patchPaths hpatch).2
  constructor
  · rintro ⟨key, hkey, above, hheld, habove⟩
    obtain hempty | ⟨path, hpath, rfl⟩ := (hkeys key).mp hkey
    · cases hempty
    refine ⟨path, hpath, ?_⟩
    obtain ⟨rest, hrest, hparts⟩ := isAbove_iff.mp habove
    rw [locate_eq] at hheld
    rw [locate_eq, locate_eq, dottedSegments_dotted_parts (Place.follow_snd_ne_nil
      (dottedSegments_ne_nil _)), dottedSegments_dotted_parts (Place.follow_snd_ne_nil
      (dottedSegments_ne_nil _))] at hparts
    have hlives : (doc.place.follow (dottedSegments above)).1.value ≠ none := by
      intro hnone
      simp [Place.holdsReferenced, hnone] at hheld
    obtain ⟨below, hbelow⟩ : dottedSegments above <+: dottedSegments path :=
      Place.prefix_of_stored hplain (fun _ => isSegment_of_mem_dottedSegments) hlives
        (mem_segments.mpr ⟨path, hpath, rfl⟩) (fun _ => isSegment_of_mem_dottedSegments)
        (hparts ▸ List.prefix_append _ _)
    refine Place.leadsIntoReference_iff.mpr ⟨_, below, hbelow.symm, ?_, hheld⟩
    rintro rfl
    rw [← hbelow, List.append_nil] at hparts
    exact hrest (List.self_eq_append_right.mp hparts)
  · rintro ⟨path, hpath, hleads⟩
    obtain ⟨above, hheld, habove⟩ := isAbove_locate hleads
    exact ⟨_, (hkeys _).mpr (.inr ⟨path, hpath, rfl⟩), above, hheld, habove⟩

/-- **References are followed in lists and dicts only**: a changed path leads into a referenced
document exactly when collecting the changes follows a reference, or a document has recorded such a
path by itself, and then the patch has a key below the stored reference. A reference that is
followed is an item of a list or a value of a dict, never an attribute. -/
theorem changedPaths_leadIntoReference_iff (hdoc : doc.Representable) (hnames : doc.Undotted) :
    ((∃ path ∈ doc.changedPaths.paths, doc.leadsIntoReference path = true) ↔
      doc.FollowsReference ∨ doc.RecordsBelowReference) ∧
    (∀ q f inner, doc.Reaches q (some f) inner → f.kind.isReference = true →
      ∃ above s, q = above ++ [s] ∧
        (doc.place.follow above).1.value.any Value.isContainer = true) ∧
    ∀ patch, doc.incrementalPatch.Gives patch → doc.PlainlyStored →
      (doc.WritesBelowReference patch ↔ doc.FollowsReference ∨ doc.RecordsBelowReference) := by
  have hleads := exists_leadsIntoReference_iff hdoc hnames
  refine ⟨hleads, fun q f inner hreach hf => ?_, fun patch hpatch hplain =>
    (writesBelowReference_iff hpatch hplain).trans hleads⟩
  rcases DocumentMapper.Reaches.in_container hreach hf ⟨hdoc, hnames⟩ with rfl | hcontainer
  · cases DocumentMapper.Reaches.eq_of_nil hreach
  · exact hcontainer

end Document

/-! ### A fan of a club -/

/-- Clubs have a list of references to their fans. -/
def clubType : DocumentType where
  name := "Club"
  className := "Club"
  collection := some "clubs"
  fields := [{ Field.ofKind "id" (.scalar .objectId) with storageName := idKey },
    .list "fans" (.reference "Author")]
  primaryKey := some "id"
  isDynamic := false
  allowsInheritance := false
  superclass := none

theorem clubType_built : clubType.Built := by
  let plain : Declaration := (Declaration.document "Club").inCollection "clubs"
  exact ⟨plain.withField (.list "fans" (.reference "Author")), rfl⟩

theorem authorType_built : authorType.Built := by
  let plain : Declaration := (Declaration.document "Author").inCollection "authors"
  exact ⟨plain.withField (.ofKind "name" (.scalar .string)), rfl⟩

/-- A club that holds its fan as a document. -/
def club : Document :=
  ⟨clubType, [("fans", .list [.document (author "old")])], .empty, none⟩

/-- A fan whose name has changed. -/
def renamedFan : Document :=
  ⟨authorType, [("name", .string "new")], DirtyPaths.empty.mark "name", none⟩

/-- The club of that fan. -/
def renamedClub : Document :=
  ⟨clubType, [("fans", .list [.document renamedFan])], .empty, none⟩

/-- The patch of the name. -/
def clubPatch : Patch :=
  ⟨[("fans.0.name", .string "new")], []⟩

theorem viewed_club : club.viewed .field "fans" [.item 0] renamer = renamedClub :=
  rfl

/-- No document lives at or below a place without parts. -/
theorem Place.follow_ne_document {p : Place} (h : ∀ v, p.value = some v → v.IsLeaf)
    (q : List String) (inner : Document) : (p.follow q).1.value ≠ some (.document inner) := by
  intro hinner
  cases q with
  | nil => exact h _ hinner
  | cons s q =>
    rw [follow_cons, follow_of_none (value_enter_of_leaf h s) q] at hinner
    cases hinner

/-- What lives at a position of the list of fans. -/
theorem value_fan (t : String) :
    (renamedClub.place.follow ["fans", t]).1.value =
      if position? t = some 0 then some (.document renamedFan) else none := by
  have hitem : (renamedClub.place.follow ["fans", t]).1.value =
      (position? t).bind fun i => [Value.document renamedFan][i]? := rfl
  rw [hitem]
  cases position? t with
  | none => rfl
  | some i => cases i <;> simp

/-- The documents of the club are itself and its fan. -/
theorem document_renamedClub {q : List String} {inner : Document}
    (h : (renamedClub.place.follow q).1.value = some (.document inner)) :
    q = [] ∧ inner = renamedClub ∨ ∃ t, q = ["fans", t] ∧ inner = renamedFan := by
  rcases q with _ | ⟨s, _ | ⟨t, q⟩⟩
  · exact .inl ⟨rfl, (Value.document.inj (Option.some.inj h)).symm⟩
  · by_cases hs : "fans" = s
    · subst hs
      cases h
    · simp [Place.follow, Place.enter, Document.place, Place.inDocument, renamedClub, Entries.get?,
        hs] at h
  by_cases hs : "fans" = s
  · subst hs
    have hfan := value_fan t
    have hlives : ((renamedClub.place.follow ["fans", t]).1.follow q).1.value =
        some (.document inner) := h
    generalize (renamedClub.place.follow ["fans", t]).1 = p at hfan hlives
    split at hfan
    · obtain ⟨f, v⟩ := p
      obtain rfl : v = some (.document renamedFan) := hfan
      rcases q with _ | ⟨u, q⟩
      · exact .inr ⟨t, rfl, (Value.document.inj (Option.some.inj hlives)).symm⟩
      · rw [Place.follow_cons, Place.enter_attribute] at hlives
        refine absurd hlives (Place.follow_ne_document (fun v hv => ?_) q inner)
        obtain ⟨-, rfl⟩ : "name" = u ∧ Value.string "new" = v := by
          simpa [Place.inDocument, renamedFan, Entries.get?] using hv
        trivial
    · rw [Place.follow_of_none hfan] at hlives
      cases hlives
  · have hnone : (renamedClub.place.enter s).1.value = none := by
      simp [Place.enter, Document.place, Place.inDocument, renamedClub, Entries.get?, hs]
    rw [Place.follow_cons, Place.follow_of_none hnone] at h
    cases h

theorem plainlyStored_renamedClub : renamedClub.PlainlyStored := by
  have hpaths : renamedClub.changedPaths.segments = [["fans", "0", "name"]] := rfl
  intro q inner hinner
  rcases document_renamedClub hinner with ⟨rfl, rfl⟩ | ⟨t, rfl, rfl⟩
  · refine plainlyNamed_of_declared clubType_built (by decide) (by decide) (by decide) (by decide)
      ?_
    rintro name ⟨rest, hrest⟩
    simp only [hpaths, List.nil_append, List.mem_singleton, List.cons.injEq] at hrest
    rw [hrest.1]
    rfl
  · refine plainlyNamed_of_declared authorType_built (by decide) (by decide) (by decide) (by decide)
      ?_
    rintro name ⟨rest, hrest⟩
    simp only [hpaths, List.cons_append, List.nil_append, List.mem_singleton, List.cons.injEq,
      true_and] at hrest
    rw [hrest.2.1]
    rfl

theorem changedPaths_leadIntoReference_iff_club :
    renamedClub.Representable ∧ renamedClub.Undotted ∧ renamedClub.PlainlyStored ∧
      renamedClub.incrementalPatch.Gives clubPatch ∧ renamedClub.FollowsReference ∧
      (∃ path ∈ renamedClub.changedPaths.paths, renamedClub.leadsIntoReference path = true) ∧
      renamedClub.WritesBelowReference clubPatch := by
  have hdoc : renamedClub.Representable := by
    refine ⟨by decide, ⟨by decide, ?_, trivial⟩, trivial⟩
    exact ⟨by decide, trivial, trivial⟩
  have hnames : renamedClub.Undotted := by
    refine ⟨by decide, ⟨?_, trivial⟩, trivial⟩
    exact ⟨by decide, trivial, trivial⟩
  have hpatch : renamedClub.incrementalPatch.Gives clubPatch := ⟨.fresh, .fresh, rfl⟩
  have hfollows : renamedClub.FollowsReference := by
    refine ⟨["fans", "0"], .ofKind "fans" (.reference "Author"), renamedFan, ?_, rfl, ?_,
      List.cons_ne_nil "name" []⟩
    · have hitem : Reaches renamedClub.dirty (dottedSegments "fans") (clubType.describe? "fans")
          (.list [.document renamedFan]) ["0"] (some (.ofKind "fans" (.reference "Author")))
          renamedFan := .item (i := 0) rfl (.here (not_covered_empty _))
      exact .inside (not_covered_empty _) rfl List.mem_cons_self hitem
    · have hsegments : dottedSegments "fans.0" = ["fans", "0"] := rfl
      rw [← hsegments, ← covers_iff]
      decide
  obtain ⟨hleads, -, hkeys⟩ := Document.changedPaths_leadIntoReference_iff hdoc hnames
  exact ⟨hdoc, hnames, plainlyStored_renamedClub, hpatch, hfollows, hleads.mpr (.inl hfollows),
    (hkeys _ hpatch plainlyStored_renamedClub).mpr (.inl hfollows)⟩

/-- The name of the fan has changed, and the patch puts it below the reference. -/
theorem club_leadsIntoReference :
    ∃ after, club.Worked after ∧
      ¬ (∀ path ∈ after.changedPaths.paths, after.leadsIntoReference path = false) ∧
      ∃ patch, after.incrementalPatch.Gives patch ∧ after.WritesBelowReference patch := by
  have hworked : club.Worked renamedClub := by
    rw [← viewed_club]
    exact worked_rename (by decide)
  refine ⟨renamedClub, hworked, fun hnever => ?_, clubPatch, ⟨.fresh, .fresh, rfl⟩,
    "fans.0.name", by decide, "fans.0", rfl, by decide⟩
  have hchanged : "fans.0.name" ∈ renamedClub.changedPaths.paths := by decide
  have hleads : renamedClub.leadsIntoReference "fans.0.name" = true := rfl
  rw [hnever _ hchanged] at hleads
  cases hleads

end DocumentMapper
