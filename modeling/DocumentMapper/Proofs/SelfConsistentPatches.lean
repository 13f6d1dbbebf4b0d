import DocumentMapper.Proofs.ObjectPaths
import DocumentMapper.Proofs.ReferencePositions
import DocumentMapper.Proofs.RenderedEntries
import DocumentMapper.Proofs.TracedDocuments

/-!
# Patches that agree with themselves

No changed path of a document is above another one. Each of them is followed on its own through live
values to its storage names. That keeps them apart: as long as all marks come from tracked edits,
every document on the way is left by an attribute that has a value, and no two of those are stored
under one name. So the patch neither sets nor removes anything twice, and none of its paths leads
into what another one puts.

In which order a store makes the entries of such a patch does not matter, unless two of its paths
part at two spellings of one position, such as 0 and 00, which an array takes for the same.

## Main results

* `Nested.attributed`: changed paths leave documents by attributes that have a value;
* `Place.NamedApart.prefix_of_follow`: a path that begins another one in the store does so in the
  document;
* `Document.agreesWithItself_incrementalPatch`: so no key of a patch is above another one;
* `Document.incrementalPatch_free_of_conflict`: the patch of a document with tracked changes agrees
  with itself, and the order of its entries does not matter.
-/

namespace DocumentMapper

open Text DirtyPaths

/-! ### Attributes on the way -/

/-- Whenever a path from a place enters a document, it goes on with an attribute that has a
value. -/
def Place.Attributed : Place → List String → Prop
  | _, [] => True
  | p, s :: rest =>
    (∀ doc, p.value = some (.document doc) → (Entries.get? doc.values s).isSome) ∧
      (p.enter s).1.Attributed rest

/-- At a place that holds no document a path may go on anyhow. -/
theorem Place.attributed_cons {p : Place} {s : String} {rest : List String}
    (hvalue : ∀ doc, p.value ≠ some (.document doc)) (h : (p.enter s).1.Attributed rest) :
    p.Attributed (s :: rest) :=
  ⟨fun doc hdoc => absurd hdoc (hvalue doc), h⟩

/-- Into a document it goes on with an attribute that has a value. -/
theorem Place.attributed_attribute {doc : Document} {name : String} {v : Value} {f : Option Field}
    {rest : List String} (hv : Entries.get? doc.values name = some v)
    (h : ((Place.mk f (some (.document doc))).enter name).1.Attributed rest) :
    (Place.mk f (some (.document doc))).Attributed (name :: rest) := by
  refine ⟨fun inner hinner => ?_, h⟩
  obtain rfl := Value.document.inj (Option.some.inj hinner)
  rw [hv]
  rfl

/-- A passable path enters no document. -/
theorem Passable.attributed {v : Option Value} {q : List String} (h : Passable v q)
    (hv : ∀ w, v = some w → w.Addressable) (f : Option Field) : (Place.mk f v).Attributed q := by
  induction h generalizing f with
  | here => exact trivial
  | item hw _ ih =>
    obtain ⟨hpart, henter⟩ := (hv _ rfl).item hw
    refine Place.attributed_cons (by simp) ?_
    rw [henter]
    exact ih (fun w heq => Option.some.inj heq ▸ hpart) _
  | entry _ ih =>
    refine Place.attributed_cons (by simp) ?_
    rw [Place.enter_entry]
    exact ih (fun w hw => ((hv _ rfl).entry (Entries.mem_of_get? hw)).1) _

/-- **Where the records are in order, changed paths leave documents by attributes that have a
value.** -/
theorem Nested.attributed {d : DirtyPaths} {r : List String} {v : Value} {q : List String}
    (h : Nested d r v q) (hrecords : Orderly d r v) (hv : v.Addressable) (f : Option Field) :
    (Place.mk f (some v)).Attributed q := by
  induction h generalizing f with
  | item hitem h ih =>
    have huncovered := (Nested.item hitem h).uncovered
    obtain ⟨hpart, henter⟩ := hv.item hitem
    refine Place.attributed_cons (by simp) ?_
    rw [henter]
    cases hrecords with
    | covered hcovered => exact absurd hcovered huncovered
    | leaf hleaf => exact absurd hleaf id
    | list hitems => exact ih (hitems _ _ hitem) hpart _
  | entry hentry h ih =>
    have huncovered := (Nested.entry hentry h).uncovered
    have hget := Entries.get?_of_mem hv.representable.1 hentry
    have hsegment := (undotted_entry hv.undotted hentry).1
    obtain ⟨hpart, hkey, henter⟩ := hv.entry hentry
    rw [hkey] at ih ⊢
    refine Place.attributed_cons (by simp) ?_
    rw [henter]
    cases hrecords with
    | covered hcovered => exact absurd hcovered huncovered
    | leaf hleaf => exact absurd hleaf id
    | dict hentries => exact ih (hentries _ _ hget hsegment) hpart _
  | @own d r doc q huncovered hm =>
    cases hrecords with
    | covered hcovered => exact absurd hcovered huncovered
    | leaf hleaf => exact absurd hleaf id
    | document hrecord hmarks _ =>
      obtain ⟨name, w, rest, rfl, hw, hrest⟩ := hmarks _ hm
      obtain ⟨hpart, -, henter⟩ := hv.inside (Entries.mem_of_get? hw)
      refine Place.attributed_attribute hw ?_
      rw [henter]
      exact hrest.attributed (fun u heq => Option.some.inj heq ▸ hpart) _
  | @inside d r doc name v q huncovered _ hentry _ ih =>
    have hkeys : (doc.values.map Prod.fst).Nodup :=
      (Document.Representable.values hv.representable).1
    have hget := Entries.get?_of_mem hkeys hentry
    have hsegment := (undotted_entry (Document.Undotted.values hv.undotted) hentry).1
    obtain ⟨hpart, hname, henter⟩ := hv.inside hentry
    rw [hname] at ih ⊢
    cases hrecords with
    | covered hcovered => exact absurd hcovered huncovered
    | leaf hleaf => exact absurd hleaf id
    | document _ _ hattributes =>
      refine Place.attributed_attribute hget ?_
      rw [henter]
      exact ih (hattributes _ _ hget hsegment) hpart _

/-! ### Paths in the store -/

/-- What tells the attributes of a document apart in the store: its type was built, no storage name
has a point, and no attribute that is not declared is spelled like the storage name of a declared
one. -/
structure Document.NamedApart (doc : Document) : Prop where
  built : doc.type.Built
  undotted : ∀ f ∈ doc.type.fields, IsSegment f.storageName
  held : ∀ name, (Entries.get? doc.values name).isSome → doc.type.field? name = none →
    doc.type.storedField? name = none

/-- A document with declared attributes tells them apart. -/
theorem Document.namedApart_of_declared {doc : Document} (hbuilt : doc.type.Built)
    (hundotted : ∀ f ∈ doc.type.fields, IsSegment f.storageName)
    (hheld : ∀ name ∈ doc.values.map Prod.fst, (doc.type.field? name).isSome) :
    doc.NamedApart := by
  refine ⟨hbuilt, hundotted, fun name hvalue hnone => ?_⟩
  have hsome := hheld name (Entries.get?_isSome_iff.mp hvalue)
  rw [hnone] at hsome
  cases hsome

namespace Place

variable {p : Place} {a q : List String}

/-- The documents that paths from a place lead to tell their attributes apart. -/
def NamedApart (p : Place) : Prop :=
  ∀ q inner, (p.follow q).1.value = some (.document inner) → inner.NamedApart

/-- What holds of a path holds of the rest of it, where its beginning leads to. -/
theorem Attributed.follow {front rest : List String} (h : p.Attributed (front ++ rest)) :
    (p.follow front).1.Attributed rest := by
  induction front generalizing p with
  | nil => exact h
  | cons s front ih =>
    rw [follow_cons]
    exact ih h.2

/-- **A path that begins another one in the store begins it in the document**, if both leave
documents by attributes that have a value. -/
theorem NamedApart.prefix_of_follow (h : p.NamedApart) (ha : p.Attributed a) (hq : p.Attributed q)
    (hstored : (p.follow a).2 <+: (p.follow q).2) : a <+: q := by
  -- Both paths leave the document at which they part by attributes that have a value.
  refine Place.prefix_of_follow (fun front s a' t q' hs ht inner hinner hname => ?_) hstored
  subst hs ht
  have hnames := h front inner hinner
  exact Document.eq_of_storedName hnames.built (hnames.held s (ha.follow.1 inner hinner))
    (hnames.held t (hq.follow.1 inner hinner)) hname

end Place

/-- What lives at a step into a value is embedded in the value. -/
theorem Value.Embeds.of_enter {v w : Value} {f : Option Field} {s : String} {inner : Document}
    (hw : ((Place.mk f (some v)).enter s).1.value = some w) (h : w.Embeds inner) :
    v.Embeds inner := by
  cases v with
  | list items =>
    obtain ⟨i, -, hi⟩ := Option.bind_eq_some_iff.mp hw
    exact .item (List.mem_of_getElem? hi) h
  | dict entries => exact .entry (Entries.mem_of_get? hw) h
  | document doc =>
    rw [Place.enter_attribute] at hw
    exact .held (Entries.mem_of_get? hw) h
  | null => cases hw
  | bool b => cases hw
  | int n => cases hw
  | float x => cases hw
  | string t => cases hw
  | datetime i => cases hw
  | reference r => cases hw
  | linked r => cases hw

/-- Paths lead to embedded documents only. -/
theorem Place.embeds_of_follow {p : Place} {v : Value} (hv : p.value = some v) {q : List String}
    {inner : Document} (h : (p.follow q).1.value = some (.document inner)) : v.Embeds inner := by
  induction q generalizing p v with
  | nil =>
    obtain rfl := Option.some.inj (hv.symm.trans h)
    exact .document inner
  | cons s q ih =>
    rw [follow_cons] at h
    obtain ⟨f, _⟩ := p
    obtain rfl := hv
    cases hw : ((Place.mk f (some v)).enter s).1.value with
    | none =>
      rw [follow_of_none hw q] at h
      cases h
    | some w => exact .of_enter hw (ih hw h)

/-- If all documents inside tell their attributes apart, so do those that paths lead to. -/
theorem Document.namedApart_place {doc : Document}
    (h : ∀ inner, (Value.document doc).Embeds inner → inner.NamedApart) : doc.place.NamedApart :=
  fun _ inner hinner => h inner (Place.embeds_of_follow rfl hinner)

/-! ### The paths of a patch -/

namespace Patch

/-- No two paths of a patch are the same, and none is above another one. -/
def AgreesWithItself (p : Patch) : Prop :=
  p.paths.Pairwise fun a b => a ≠ b ∧ isAbove a b = false ∧ isAbove b a = false

/-- Putting a new path adds it to the paths of a patch. -/
theorem perm_paths_put {p : Patch} {key : String} (hnew : key ∉ p.paths) (j : Json) :
    (p.put key j).paths.Perm (key :: p.paths) := by
  rw [paths, List.mem_append, not_or] at hnew
  have hsets : p.sets.get? key = none := Entries.get?_eq_none_iff.mpr hnew.1
  have hunsets : p.unsets.get? key = none := Entries.get?_eq_none_iff.mpr hnew.2
  unfold put
  split
  · rw [paths, Entries.insert_of_get?_none hunsets, List.map_append, ← List.append_assoc]
    exact List.perm_append_singleton key p.paths
  · rw [paths, Entries.insert_of_get?_none hsets, List.map_append, List.append_assoc]
    exact List.perm_middle

end Patch

namespace Document

/-- What one more path adds to a patch. -/
theorem yields_patchPaths_cons {doc : Document} {path key : String} {rest : List String}
    {place : Place} {start p : Patch} {j : Json} (hplace : doc.locate path = (place, key))
    (hj : place.toJson.Yields j) (hrest : (doc.patchPaths rest (start.put key j)).Yields p) :
    (doc.patchPaths (path :: rest) start).Yields p := by
  rw [patchPaths, hplace]
  exact hj.bind hrest

/-- Paths that are stored under different keys each add one path to a patch. -/
theorem perm_paths_of_patchPaths {doc : Document} {paths : List String} {start p : Patch}
    (h : (doc.patchPaths paths start).Gives p)
    (hkeys : (paths.map fun path => (doc.locate path).2).Nodup)
    (hnew : ∀ path ∈ paths, (doc.locate path).2 ∉ start.paths) :
    p.paths.Perm (start.paths ++ paths.map fun path => (doc.locate path).2) := by
  induction paths generalizing start with
  | nil =>
    obtain rfl := Drawing.gives_pure.mp h
    simp
  | cons path rest ih =>
    obtain ⟨j, -, hrest⟩ := Drawing.Gives.of_bind h
    obtain ⟨hfirst, hkeys⟩ := List.nodup_cons.mp hkeys
    obtain ⟨hpath, hnew⟩ := List.forall_mem_cons.mp hnew
    have hput := Patch.perm_paths_put hpath j
    have hstill : ∀ other ∈ rest,
        (doc.locate other).2 ∉ (start.put (doc.locate path).2 j).paths := by
      intro other hother hmem
      rcases List.mem_cons.mp (hput.mem_iff.mp hmem) with heq | hmem
      · exact hfirst (List.mem_map.mpr ⟨other, hother, heq⟩)
      · exact hnew other hother hmem
    have hnext := ih hrest hkeys hstill
    exact hnext.trans ((hput.append_right _).trans List.perm_middle.symm)

variable {doc : Document}

/-- **Changed paths that are followed one by one stay apart in the store.** -/
theorem not_prefix_locate (htraced : (Value.document doc).Traced) (hdoc : doc.Representable)
    (hundotted : doc.Undotted) (hnames : doc.place.NamedApart) {a b : String}
    (ha : a ∈ doc.changedPaths.paths) (hb : b ∈ doc.changedPaths.paths) (hne : a ≠ b) :
    ¬ dottedSegments (doc.locate a).2 <+: dottedSegments (doc.locate b).2 := by
  have hattributed : ∀ path ∈ doc.changedPaths.paths,
      doc.place.Attributed (dottedSegments path) := fun path hpath =>
    (nested_of_changedPaths (mem_segments.mpr ⟨path, hpath, rfl⟩)).attributed
      (htraced.orderly _ _) ⟨hdoc, hundotted⟩ none
  have hstored : ∀ path, dottedSegments (doc.locate path).2 =
      (doc.place.follow (dottedSegments path)).2 := by
    intro path
    rw [locate_eq]
    exact dottedSegments_dotted (Place.follow_snd_ne_nil (dottedSegments_ne_nil path))
      (Place.isSegment_follow (fun front inner hinner => (hnames front inner hinner).undotted)
        fun _ => isSegment_of_mem_dottedSegments)
  rw [hstored, hstored]
  intro hprefix
  -- A path that is above the other one in the store is so in the document, where none is.
  have habove := hnames.prefix_of_follow (hattributed a ha) (hattributed b hb) hprefix
  exact hne (dottedSegments_injective (doc.antichain_changedPaths _
    (mem_segments.mpr ⟨a, ha, rfl⟩) _ (mem_segments.mpr ⟨b, hb, rfl⟩) habove))

/-- **The patch of what changed agrees with itself.** -/
theorem agreesWithItself_incrementalPatch (htraced : (Value.document doc).Traced)
    (hdoc : doc.Representable) (hundotted : doc.Undotted) (hnames : doc.place.NamedApart)
    {p : Patch} (hp : doc.incrementalPatch.Gives p) : p.AgreesWithItself := by
  have happart : ∀ a ∈ doc.changedPaths.paths, ∀ b ∈ doc.changedPaths.paths, a ≠ b →
      (doc.locate a).2 ≠ (doc.locate b).2 ∧ isAbove (doc.locate a).2 (doc.locate b).2 = false ∧
        isAbove (doc.locate b).2 (doc.locate a).2 = false := by
    intro a ha b hb hne
    have hab := not_prefix_locate htraced hdoc hundotted hnames ha hb hne
    have hba := not_prefix_locate htraced hdoc hundotted hnames hb ha (Ne.symm hne)
    rw [← eq_or_isAbove_iff, Bool.or_eq_true, not_or, beq_iff_eq, Bool.not_eq_true] at hab hba
    exact ⟨hab.1, hab.2, hba.2⟩
  have hnodup : doc.changedPaths.paths.Nodup := nodup_markAll List.nodup_nil _
  have hpairwise := hnodup.pairwise_of_forall_ne happart
  have hkeys : (doc.changedPaths.paths.map fun path => (doc.locate path).2).Pairwise fun a b =>
      a ≠ b ∧ isAbove a b = false ∧ isAbove b a = false := List.pairwise_map.mpr hpairwise
  have hperm : p.paths.Perm (doc.changedPaths.paths.map fun path => (doc.locate path).2) :=
    perm_paths_of_patchPaths hp (hkeys.imp And.left) fun _ _ => List.not_mem_nil
  refine hperm.symm.pairwise hkeys ?_
  rintro a b ⟨hne, hab, hba⟩
  exact ⟨Ne.symm hne, hba, hab⟩

end Document

/-! ### The entries of a patch -/

namespace Patch

variable {p : Patch}

/-- The entries of the update of a patch. -/
theorem entriesOf_toUpdate (p : Patch) :
    entriesOf p.toUpdate = p.sets.map (fun e => ⟨"$set", e.1, e.2⟩) ++
      p.unsets.map fun e => ⟨"$unset", e.1, e.2⟩ := by
  obtain ⟨sets, unsets⟩ := p
  cases sets <;> cases unsets <;> simp [toUpdate, entriesOf, Json.asObject?]

/-- The entries of the update of a patch stand at the paths of the patch. -/
theorem paths_entriesOf (p : Patch) : (entriesOf p.toUpdate).map UpdateEntry.path = p.paths := by
  rw [entriesOf_toUpdate, List.map_append, List.map_map, List.map_map]
  rfl

/-- The update of a patch sets and removes. -/
theorem puts_of_mem (hp : p.WellFormed) : ∀ e ∈ entriesOf p.toUpdate, e.Puts := by
  rw [entriesOf_toUpdate, List.forall_mem_append]
  refine ⟨fun e he => ?_, fun e he => ?_⟩
  · obtain ⟨set, hset, rfl⟩ := List.mem_map.mp he
    exact .inl ⟨rfl, hp set hset⟩
  · obtain ⟨unset, -, rfl⟩ := List.mem_map.mp he
    exact .inr rfl

/-- Each position has one spelling in the paths of a patch: those that never part for good in a
store, which takes 0 and 00 for one position, overlap as they are written. -/
def SpellsPositionsAlike (p : Patch) : Prop :=
  ∀ a ∈ p.paths, ∀ b ∈ p.paths, ¬ Apart (dottedSegments a) (dottedSegments b) →
    Overlap (dottedSegments a) (dottedSegments b)

/-- The paths of such a patch are apart, if the patch agrees with itself. -/
theorem AgreesWithItself.apart (h : p.AgreesWithItself) (hspelled : p.SpellsPositionsAlike) :
    p.paths.Pairwise fun a b => Apart (dottedSegments a) (dottedSegments b) := by
  refine h.imp_of_mem fun {a b} ha hb hab => ?_
  obtain ⟨hne, habove, hbelow⟩ := hab
  by_contra hnot
  rcases hspelled a ha b hb hnot with hprefix | hprefix
  · rw [← eq_or_isAbove_iff, habove, Bool.or_false, beq_iff_eq] at hprefix
    exact hne hprefix
  · rw [← eq_or_isAbove_iff, hbelow, Bool.or_false, beq_iff_eq] at hprefix
    exact hne hprefix.symm

/-- Patches whose positions are written as numbers are, spell each position alike. -/
theorem spellsPositionsAlike_of_numbers {p : Patch}
    (h : ∀ path ∈ p.paths, ∀ s ∈ dottedSegments path, ∀ i ∈ position? s, s = toString i) :
    p.SpellsPositionsAlike := by
  have hoverlap : ∀ as bs : List String, (∀ s ∈ as, ∀ i ∈ position? s, s = toString i) →
      (∀ t ∈ bs, ∀ i ∈ position? t, t = toString i) → ¬ Apart as bs → Overlap as bs := by
    intro as
    induction as with
    | nil => exact fun bs _ _ _ => .inl List.nil_prefix
    | cons s as ih =>
      intro bs has hbs hnot
      cases bs with
      | nil => exact .inr List.nil_prefix
      | cons t bs =>
        obtain ⟨hs, has⟩ := List.forall_mem_cons.mp has
        obtain ⟨ht, hbs⟩ := List.forall_mem_cons.mp hbs
        rw [Apart, not_or] at hnot
        -- Two segments that a store cannot tell apart are numbers of one position.
        have hsame : s = t := by
          by_contra hne
          refine hnot.1 ⟨hne, ?_⟩
          cases hi : position? s with
          | none => exact .inl rfl
          | some i => exact .inr fun hj => hne ((hs i hi).trans (ht i hj.symm).symm)
        rw [hsame, overlap_cons_iff]
        exact ih bs has hbs hnot.2
  exact fun a ha b hb => hoverlap _ _ (h a ha) (h b hb)

end Patch

/-- The names in a document and in the documents inside it are clear: none has a point, and in the
store they tell the attributes apart. -/
structure Document.ClearlyNamed (doc : Document) : Prop where
  undotted : doc.Undotted
  apart : ∀ inner, (Value.document doc).Embeds inner → inner.NamedApart

/-- **The patch of a document with tracked changes never conflicts with itself.** Its paths are
pairwise different, and none is above another one. So a store may apply its entries to a record in
any order: if one order succeeds, so does every other one, with an equal result, provided that the
paths spell each position alike. -/
theorem Document.incrementalPatch_free_of_conflict {doc : Document}
    (htraced : (Value.document doc).Traced) (hdoc : doc.Representable) (hnames : doc.ClearlyNamed)
    {p : Patch} (hp : doc.incrementalPatch.Gives p) :
    p.AgreesWithItself ∧ (p.WellFormed → p.SpellsPositionsAlike →
      ∀ record : Object, record.WellFormed → ∀ entries others : List UpdateEntry,
        entries.Perm (entriesOf p.toUpdate) → others.Perm (entriesOf p.toUpdate) →
        ∀ after, actAll false entries record = ⟨after, none⟩ →
          ∃ after', actAll false others record = ⟨after', none⟩ ∧ after'.equal after = true) := by
  have hagrees : p.AgreesWithItself :=
    agreesWithItself_incrementalPatch htraced hdoc hnames.undotted
      (namedApart_place hnames.apart) hp
  refine ⟨hagrees, fun hwf hspelled record hrecord entries others hentries hothers after h => ?_⟩
  have hpaths := hagrees.apart hspelled
  rw [← p.paths_entriesOf, List.pairwise_map] at hpaths
  exact actAll_perm_of_puts (hentries.trans hothers.symm)
    (fun e he => Patch.puts_of_mem hwf e (hentries.mem_iff.mp he))
    (hentries.symm.pairwise hpaths Apart.symm) hrecord h

/-! ### A reader -/

/-- Readers have books, lend some of them, and keep notes. -/
def readerType : DocumentType where
  name := "Reader"
  className := "Reader"
  collection := some "readers"
  fields := [{ Field.ofKind "id" (.scalar .objectId) with storageName := idKey },
    { Field.list "books" (.embedded bookType) with storageName := "b" },
    .dict "lent" (.embedded bookType), .dict "notes" (.scalar .string)]
  primaryKey := some "id"
  isDynamic := false
  allowsInheritance := false
  superclass := none

theorem readerType_built : readerType.Built := by
  let plain : Declaration := (Declaration.document "Reader").inCollection "readers"
  let books := plain.withField { Field.list "books" (.embedded bookType) with storageName := "b" }
  exact ⟨(books.withField (.dict "lent" (.embedded bookType))).withField
    (.dict "notes" (.scalar .string)), rfl⟩

/-- A book on which nothing was marked. -/
def cleanBook : Document :=
  ⟨bookType, [("title", .string "old")], .empty, none⟩

/-- A reader who has a book. -/
def reader : Document :=
  ⟨readerType, [("books", .list [.document cleanBook]), ("notes", .dict [])], .empty, none⟩

/-- Gives the documents that are visited another title. -/
def retitler : Visitor Unit :=
  ⟨fun l => ((), l), fun d => ((), d), fun doc => ((), doc.assign [("title", .string "new")]),
    fun _ => ()⟩

/-- Puts notes under some keys of a dict. -/
def annotator (keys : List String) : Visitor Unit :=
  ⟨fun l => ((), l), fun d => ((), keys.foldl (fun d key => (d.insert key (.string key)).2) d),
    fun doc => ((), doc), fun _ => ()⟩

/-- The reader with another title of the book. -/
def retitledReader : Document :=
  (reader.visit "books" [.item 0] retitler).2

/-- That reader with some notes. -/
def annotatedReader (keys : List String) : Document :=
  (retitledReader.visit "notes" [] (annotator keys)).2

theorem traced_annotatedReader {keys : List String} (hkeys : ∀ key ∈ keys, IsSegment key) :
    (Value.document (annotatedReader keys)).Traced := by
  have htitle : IsAttributeName "title" := ⟨by decide, by decide⟩
  have hbooks : reader.enter .field "books" = .ok ("books", reader) := rfl
  have hretitled : Document.Edited none reader retitledReader :=
    .visit (.refl _ _) hbooks ⟨by decide, by decide⟩ (Option.some_ne_none _).symm
      (fun v _ => by cases v <;> trivial) (fun _ => .refl) (fun _ => .refl)
      fun e => e.edited_assign "title" htitle (.string "new")
  have hnotes : retitledReader.enter .field "notes" = .ok ("notes", retitledReader) := rfl
  have hinserted : ∀ d : DictView, d.Edited ((annotator keys).onDict d).2 := by
    unfold annotator
    induction keys with
    | nil => exact fun _ => .refl
    | cons key rest ih =>
      obtain ⟨hkey, hrest⟩ := List.forall_mem_cons.mp hkeys
      exact fun d => .head (.insert d hkey (.string key)) (ih hrest _)
  have hannotated : Document.Edited none reader (annotatedReader keys) :=
    .visit hretitled hnotes ⟨by decide, by decide⟩ (Option.some_ne_none _).symm trivial
      (fun _ => .refl) hinserted fun e => .refl none e
  exact .edited (Document.traced_unmarked reader) hannotated

/-- Entries without parts have no point in a name if their keys have none. -/
theorem undottedEntries_of_leaves {es : List (String × Value)}
    (h : ∀ e ∈ es, IsSegment e.1 ∧ e.2.IsLeaf) : undottedEntries es := by
  induction es with
  | nil => trivial
  | cons e rest ih =>
    obtain ⟨key, v⟩ := e
    obtain ⟨⟨hkey, hleaf⟩, hrest⟩ := List.forall_mem_cons.mp h
    refine ⟨hkey, ?_, ih hrest⟩
    cases v <;> trivial

/-- A book tells its attributes apart, and so does what it has inside. -/
theorem apart_retitledBook {inner : Document} (h : (Value.document retitledBook).Embeds inner) :
    inner.NamedApart := by
  cases h with
  | document => exact Document.namedApart_of_declared bookType_built (by decide) (by decide)
  | held he h =>
    obtain rfl := List.mem_singleton.mp he
    cases h

/-- The names in a reader with notes are clear if the keys of the notes are. -/
theorem clearlyNamed_reader {notes : List (String × Value)} (d : DirtyPaths)
    (hnotes : ∀ e ∈ notes, IsSegment e.1 ∧ e.2.IsLeaf) :
    Document.ClearlyNamed ⟨readerType,
      [("books", .list [.document retitledBook]), ("notes", .dict notes)], d, none⟩ := by
  have hundotted : undottedEntries notes := undottedEntries_of_leaves hnotes
  have hfields : ∀ f ∈ readerType.fields, IsSegment f.storageName := by decide
  have hheld : ∀ name ∈ ["books", "notes"], (readerType.field? name).isSome := by decide
  refine ⟨?_, fun inner h => ?_⟩
  · exact ⟨by decide, ⟨⟨by decide, trivial, trivial⟩, trivial⟩, by decide, hundotted, trivial⟩
  · cases h with
    | document => exact Document.namedApart_of_declared readerType_built hfields hheld
    | held he h =>
      simp only [List.mem_cons, List.not_mem_nil, or_false] at he
      rcases he with rfl | rfl
      · cases h with
        | item hv h =>
          obtain rfl := List.mem_singleton.mp hv
          exact apart_retitledBook h
      · cases h with
        | entry he h => exact absurd (hnotes _ he).2 h.not_leaf

/-- The reader with one note, written out. -/
theorem annotatedReader_eq : annotatedReader ["a"] = ⟨readerType,
    [("books", .list [.document retitledBook]), ("notes", .dict [("a", .string "a")])],
    ⟨["notes.a"]⟩, none⟩ :=
  rfl

/-- The patch of the title and one note. -/
def readerPatch : Patch :=
  ⟨[("b.0.t", .string "new"), ("notes.a", .string "a")], []⟩

/-- The stored reader with a book and notes. -/
def storedReader (title : String) (notes : Json) : Object :=
  [(idKey, .string "r"), ("b", .array [.object [("t", .string title)]]), ("notes", notes)]

theorem yields_readerPatch : (annotatedReader ["a"]).incrementalPatch.Yields readerPatch := by
  have hpaths : (annotatedReader ["a"]).changedPaths.paths = ["books.0.title", "notes.a"] := rfl
  have hbook : (annotatedReader ["a"]).locate "books.0.title" =
      (⟨bookType.field? "title", some (.string "new")⟩, "b.0.t") := rfl
  have hnote : (annotatedReader ["a"]).locate "notes.a" =
      (⟨some (.ofKind "a" (.scalar .string)), some (.string "a")⟩, "notes.a") := rfl
  rw [Document.incrementalPatch, hpaths]
  exact Document.yields_patchPaths_cons hbook (fun _ => rfl)
    (Document.yields_patchPaths_cons hnote (fun _ => rfl) (.pure _))

theorem incrementalPatch_free_of_conflict_reader :
    (Value.document (annotatedReader ["a"])).Traced ∧ (annotatedReader ["a"]).Representable ∧
      (annotatedReader ["a"]).ClearlyNamed ∧
      (annotatedReader ["a"]).incrementalPatch.Gives readerPatch ∧
      readerPatch.WellFormed ∧ readerPatch.SpellsPositionsAlike ∧ readerPatch.AgreesWithItself ∧
      ∃ after, actAll false (entriesOf readerPatch.toUpdate).reverse
          (storedReader "old" (.object [])) = ⟨after, none⟩ ∧
        after.equal (storedReader "new" (.object [("a", .string "a")])) = true := by
  have htraced : (Value.document (annotatedReader ["a"])).Traced :=
    traced_annotatedReader (by decide)
  have hnames : (annotatedReader ["a"]).ClearlyNamed := by
    refine clearlyNamed_reader _ fun e he => ?_
    obtain rfl := List.mem_singleton.mp he
    exact ⟨by decide, trivial⟩
  have hdoc : (annotatedReader ["a"]).Representable := by
    rw [annotatedReader_eq]
    refine ⟨by decide, ⟨by decide, ⟨by decide, trivial, trivial⟩, trivial⟩, ?_, trivial⟩
    exact ⟨by decide, trivial, trivial⟩
  have hp := yields_readerPatch.gives
  have hwf : readerPatch.WellFormed := by
    simp [Patch.WellFormed, readerPatch, Json.WellFormed]
  have hspelled : readerPatch.SpellsPositionsAlike :=
    Patch.spellsPositionsAlike_of_numbers (by decide)
  have hrecord : (storedReader "old" (.object [])).WellFormed := by
    refine Json.wellFormed_object.mpr ⟨by decide, ?_⟩
    simp [storedReader, Json.WellFormed]
  have hrun : actAll false (entriesOf readerPatch.toUpdate) (storedReader "old" (.object [])) =
      ⟨storedReader "new" (.object [("a", .string "a")]), none⟩ := rfl
  obtain ⟨hagrees, horder⟩ :=
    Document.incrementalPatch_free_of_conflict htraced hdoc hnames hp
  exact ⟨htraced, hdoc, hnames, hp, hwf, hspelled, hagrees,
    horder hwf hspelled _ hrecord _ _ (.refl _) (List.reverse_perm _) _ hrun⟩

/-! ### Patches that do conflict -/

/-- Puts a text under a dotted key and removes it again. -/
def passer : Visitor Unit :=
  ⟨fun l => ((), l), fun d => ((), ((d.insert "a.t" (.string "x")).2.remove "a.t").2),
    fun doc => ((), doc), fun _ => ()⟩

/-- A reader who has lent a book. -/
def lender : Document :=
  ⟨readerType, [("lent", .dict [("a", .document cleanBook)])], .empty, none⟩

/-- The lender after a dotted key has come and gone, with another title of the book. -/
def passedLender : Document :=
  ((lender.visit "lent" [] passer).2.visit "lent" [.key "a"] retitler).2

theorem passedLender_eq : passedLender =
    ⟨readerType, [("lent", .dict [("a", .document retitledBook)])], ⟨["lent.a.t"]⟩, none⟩ :=
  rfl

/-- The title is stored under the dotted key that was removed. -/
theorem passedLender_conflicts :
    passedLender.incrementalPatch.Yields
        ⟨[("lent.a.t", .string "new")], [("lent.a.t", .ofNat 1)]⟩ ∧
      passedLender.ClearlyNamed := by
  refine ⟨?_, ?_⟩
  · have hpaths : passedLender.changedPaths.paths = ["lent.a.t", "lent.a.title"] := rfl
    have hgone : passedLender.locate "lent.a.t" =
        (⟨bookType.describe? "t", none⟩, "lent.a.t") := rfl
    have htitle : passedLender.locate "lent.a.title" =
        (⟨bookType.field? "title", some (.string "new")⟩, "lent.a.t") := rfl
    rw [Document.incrementalPatch, hpaths]
    exact Document.yields_patchPaths_cons hgone (fun _ => rfl)
      (Document.yields_patchPaths_cons htitle (fun _ => rfl) (.pure _))
  · rw [passedLender_eq]
    refine ⟨⟨by decide, ⟨by decide, ⟨by decide, trivial, trivial⟩, trivial⟩, trivial⟩, ?_⟩
    intro inner h
    cases h with
    | document => exact Document.namedApart_of_declared readerType_built (by decide) (by decide)
    | held he h =>
      obtain rfl := List.mem_singleton.mp he
      cases h with
      | entry he h =>
        obtain rfl := List.mem_singleton.mp he
        exact apart_retitledBook h

/-- Marks have a title, which is stored under a number. -/
def markType : DocumentType where
  name := "Mark"
  className := "Mark"
  collection := none
  fields := [{ Field.ofKind "title" (.scalar .string) with storageName := "0" }]
  primaryKey := none
  isDynamic := false
  allowsInheritance := false
  superclass := none

theorem markType_built : markType.Built :=
  ⟨(Declaration.embedded "Mark").withField
    { Field.ofKind "title" (.scalar .string) with storageName := "0" }, rfl⟩

/-- Blanks have an attribute without a name. -/
def blankType : DocumentType where
  name := "Blank"
  className := "Blank"
  collection := none
  fields := [.any ""]
  primaryKey := none
  isDynamic := false
  allowsInheritance := false
  superclass := none

theorem blankType_built : blankType.Built :=
  ⟨(Declaration.embedded "Blank").withField (.any ""), rfl⟩

/-- Assigns the first item of a list. -/
def replacer : Visitor Unit :=
  ⟨fun l => ((), (l.set 0 (.string "new")).toOption.getD l), fun d => ((), d),
    fun doc => ((), doc), fun _ => ()⟩

/-- A blank with a list. -/
def blank : Document :=
  ⟨blankType, [("", .list [.string "old"])], .empty, none⟩

/-- The blank with another item in the list, then with a mark in place of the list, and then with
another title of the mark. -/
def markedBlank : Document :=
  (((blank.visit "" [] replacer).2.assign
    [("", .document ⟨markType, [("title", .string "old")], .empty, none⟩)]).visit "" [] retitler).2

theorem markedBlank_eq : markedBlank =
    ⟨blankType, [("", .document ⟨markType, [("title", .string "new")], ⟨["title"]⟩, none⟩)],
      ⟨[".0"]⟩, none⟩ :=
  rfl

/-- The title is stored where the item was. -/
theorem markedBlank_conflicts :
    markedBlank.incrementalPatch.Yields ⟨[(".0", .string "new")], [(".0", .ofNat 1)]⟩ ∧
      markedBlank.ClearlyNamed := by
  refine ⟨?_, ?_⟩
  · have hpaths : markedBlank.changedPaths.paths = [".0", ".title"] := rfl
    have hgone : markedBlank.locate ".0" = (⟨markType.describe? "0", none⟩, ".0") := rfl
    have htitle : markedBlank.locate ".title" =
        (⟨markType.field? "title", some (.string "new")⟩, ".0") := rfl
    rw [Document.incrementalPatch, hpaths]
    exact Document.yields_patchPaths_cons hgone (fun _ => rfl)
      (Document.yields_patchPaths_cons htitle (fun _ => rfl) (.pure _))
  · rw [markedBlank_eq]
    refine ⟨⟨by decide, ⟨by decide, trivial, trivial⟩, trivial⟩, ?_⟩
    intro inner h
    cases h with
    | document => exact Document.namedApart_of_declared blankType_built (by decide) (by decide)
    | held he h =>
      obtain rfl := List.mem_singleton.mp he
      cases h with
      | document => exact Document.namedApart_of_declared markType_built (by decide) (by decide)
      | held he h =>
        obtain rfl := List.mem_singleton.mp he
        cases h

/-- The patch of the title and two notes. -/
def spelledPatch : Patch :=
  ⟨[("b.0.t", .string "new"), ("notes.0", .string "0"), ("notes.00", .string "00")], []⟩

theorem yields_spelledPatch :
    (annotatedReader ["0", "00"]).incrementalPatch.Yields spelledPatch := by
  have hpaths : (annotatedReader ["0", "00"]).changedPaths.paths =
      ["books.0.title", "notes.0", "notes.00"] := rfl
  have hbook : (annotatedReader ["0", "00"]).locate "books.0.title" =
      (⟨bookType.field? "title", some (.string "new")⟩, "b.0.t") := rfl
  have hnote : (annotatedReader ["0", "00"]).locate "notes.0" =
      (⟨some (.ofKind "0" (.scalar .string)), some (.string "0")⟩, "notes.0") := rfl
  have hother : (annotatedReader ["0", "00"]).locate "notes.00" =
      (⟨some (.ofKind "00" (.scalar .string)), some (.string "00")⟩, "notes.00") := rfl
  rw [Document.incrementalPatch, hpaths]
  exact Document.yields_patchPaths_cons hbook (fun _ => rfl)
    (Document.yields_patchPaths_cons hnote (fun _ => rfl)
      (Document.yields_patchPaths_cons hother (fun _ => rfl) (.pure _)))

/-- A patch that sets and removes one key does not agree with itself. -/
theorem Patch.not_agreesWithItself (key : String) (j k : Json) :
    ¬ AgreesWithItself ⟨[(key, j)], [(key, k)]⟩ := by
  intro h
  exact ((List.pairwise_cons.mp h).1 key List.mem_cons_self).1 rfl

/-- Two patches set and remove one key, after a dotted key and with an attribute without a name. A
third one has two spellings of a position: a record with an array takes the later one. -/
theorem conflicting_patches :
    (passedLender.ClearlyNamed ∧
      ∃ p, passedLender.incrementalPatch.Gives p ∧ ¬ p.AgreesWithItself) ∧
    (markedBlank.ClearlyNamed ∧
      ∃ p, markedBlank.incrementalPatch.Gives p ∧ ¬ p.AgreesWithItself) ∧
    (annotatedReader ["0", "00"]).ClearlyNamed ∧
      ∃ p, (annotatedReader ["0", "00"]).incrementalPatch.Gives p ∧ p.WellFormed ∧
        ∃ after after', actAll false (entriesOf p.toUpdate) (storedReader "old" (.array [])) =
            ⟨after, none⟩ ∧
          actAll false (entriesOf p.toUpdate).reverse (storedReader "old" (.array [])) =
            ⟨after', none⟩ ∧ after.equal after' = false := by
  obtain ⟨hlender, hlenderNames⟩ := passedLender_conflicts
  obtain ⟨hblank, hblankNames⟩ := markedBlank_conflicts
  have hnotes : ∀ e ∈ [("0", Value.string "0"), ("00", .string "00")],
      IsSegment e.1 ∧ e.2.IsLeaf := by
    simp only [List.forall_mem_cons]
    exact ⟨⟨by decide, trivial⟩, ⟨by decide, trivial⟩, fun e he => (List.not_mem_nil he).elim⟩
  have hwf : spelledPatch.WellFormed := by
    simp [Patch.WellFormed, spelledPatch, Json.WellFormed]
  refine ⟨⟨hlenderNames, _, hlender.gives, Patch.not_agreesWithItself _ _ _⟩,
    ⟨hblankNames, _, hblank.gives, Patch.not_agreesWithItself _ _ _⟩,
    clearlyNamed_reader _ hnotes, spelledPatch, yields_spelledPatch.gives, hwf,
    storedReader "new" (.array [.string "00"]), storedReader "new" (.array [.string "0"]), rfl, rfl,
    by decide⟩

end DocumentMapper
