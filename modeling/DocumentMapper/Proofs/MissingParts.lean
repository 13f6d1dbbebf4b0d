import DocumentMapper.Proofs.ReferencePositions
import DocumentMapper.Proofs.ResolvedPaths

/-!
# Paths to missing parts

A path that is marked as changed may lead to a part that is not there: at some point on the way
there is no value, or null. The patch then removes the path from the store. Up to that point the
path has its storage names, because the documents on the way know them. Behind it no value guides
the way, and the rest of the path stays as it is spelled.

`Kind.Declares` says which paths are declared, and which fields and positions they pass.
`BreaksOff` follows such a path through live values to the point where they end.

## Main results

* `Catalog.resolve_of_declares`: a declared path resolves to what it passes;
* `BreaksOff.follow`: where a path leads that breaks off, and its path in the store;
* `Document.unsets_storagePath_iff`: the patch removes the resolved path exactly if the attributes
  behind the missing part are stored under their own names.
-/

namespace DocumentMapper

open Text Drawing

/-! ### Declared paths -/

/-- Some segments go down from a kind: attributes of embedded documents by their names, positions in
lists and keys of dicts. The elements are what they pass. A name that stands for the primary key is
no attribute. -/
inductive Kind.Declares : Kind → List String → List PathElement → Prop
  | here (kind : Kind) : Declares kind [] []
  | named {t : DocumentType} {name : String} {f : Field} {rest : List String}
      {elements : List PathElement} (hf : t.field? name = some f) (hown : t.attributeOf name = name)
      (h : f.kind.Declares rest elements) :
      Declares (.embedded t) (name :: rest) (.field f :: elements)
  | item {element : Field} {s : String} {rest : List String} {elements : List PathElement}
      (hs : isIndex s = true) (h : element.kind.Declares rest elements) :
      Declares (.list element) (s :: rest) (.position s :: elements)
  | entry {element : Field} {key : String} {rest : List String} {elements : List PathElement}
      (h : element.kind.Declares rest elements) :
      Declares (.dict element) (key :: rest) (.field (element.renamed key) :: elements)

namespace Kind.Declares

variable {kind : Kind} {segments : List String} {elements : List PathElement}

theorem length_eq (h : kind.Declares segments elements) : elements.length = segments.length := by
  induction h with
  | here => rfl
  | named _ _ _ ih => simp [ih]
  | item _ _ ih => simp [ih]
  | entry _ ih => simp [ih]

/-- A declared path is a way down from any field of the kind. -/
theorem walk (h : kind.Declares segments elements) (c : Catalog) (path : String) {f : Field}
    (hkind : f.kind = kind) : f.walk c path segments = .ok elements := by
  induction h generalizing f with
  | here => rfl
  | named hf hown _ ih =>
    have hfield := c.fieldOn_of_field? (hown.symm ▸ hf)
    refine Field.walk_cons_eq_ok.mpr ⟨_, _, _, ?_, ih rfl, rfl⟩
    rw [hkind]
    exact .named (.same _) (fun h => absurd h Bool.false_ne_true) (.declared hfield)
  | @item element s _ _ hs _ ih =>
    have hstored : positionSegment s = s := by
      refine if_neg ?_
      rintro rfl
      exact absurd hs (by decide)
    have henters : (Kind.list element).Enters c s f.name (.position (positionSegment s)) element :=
      .item (isPositional_of_isIndex hs)
    rw [hstored] at henters
    exact Field.walk_cons_eq_ok.mpr ⟨_, _, _, hkind.symm ▸ henters, ih rfl, rfl⟩
  | @entry element key _ _ _ ih =>
    refine Field.walk_cons_eq_ok.mpr ⟨_, element.renamed key, _, ?_, ih rfl, rfl⟩
    rw [hkind]
    exact .named (.same _) (fun h => absurd h Bool.false_ne_true) (.key element)

/-- The storage names on a declared path are its segments exactly if every field on it is stored
under its own name. -/
theorem storageNames_eq_iff (h : kind.Declares segments elements) :
    elements.map PathElement.storageName = segments ↔
      ∀ f, .field f ∈ elements → f.storageName = f.name := by
  induction h with
  | here => simp
  | @named t name f rest elements hf _ _ ih =>
    have hname : f.name = name := by simpa using List.find?_some hf
    simp [ih, PathElement.storageName, hname]
  | item _ _ ih => simp [ih, PathElement.storageName]
  | @entry element key rest elements _ ih =>
    simp [ih, PathElement.storageName, Field.renamed]

end Kind.Declares

/-- **A declared path resolves to what it passes.** -/
theorem Catalog.resolve_of_declares (c : Catalog) {t : DocumentType} {segments : List String}
    {elements : List PathElement} (h : (Kind.embedded t).Declares segments elements) :
    c.resolve t segments = .ok elements := by
  rw [resolve_eq_walk]
  exact h.walk c _ rfl

/-! ### Paths that break off -/

/-- There is no value, or it is null. -/
def Missing (v : Option Value) : Prop :=
  v = none ∨ v = some .null

/-- Some segments go down from a value of a kind, through documents, lists and dicts as they are
declared, to a point where the value is missing. There another kind is declared. -/
inductive BreaksOff : Kind → Option Value → List String → List PathElement → Kind → Prop
  | missing {kind : Kind} {v : Option Value} (h : Missing v) : BreaksOff kind v [] [] kind
  | named {doc : Document} {name : String} {f : Field} {rest : List String}
      {elements : List PathElement} {last : Kind} (hf : doc.type.field? name = some f)
      (hown : doc.type.attributeOf name = name)
      (h : BreaksOff f.kind (Entries.get? doc.values name) rest elements last) :
      BreaksOff (.embedded doc.type) (some (.document doc)) (name :: rest)
        (.field f :: elements) last
  | item {element : Field} {items : List Value} {s : String} {rest : List String}
      {elements : List PathElement} {last : Kind} (hs : isIndex s = true)
      (h : BreaksOff element.kind ((position? s).bind fun i => items[i]?) rest elements last) :
      BreaksOff (.list element) (some (.list items)) (s :: rest) (.position s :: elements) last
  | entry {element : Field} {entries : List (String × Value)} {key : String} {rest : List String}
      {elements : List PathElement} {last : Kind}
      (h : BreaksOff element.kind (Entries.get? entries key) rest elements last) :
      BreaksOff (.dict element) (some (.dict entries)) (key :: rest)
        (.field (element.renamed key) :: elements) last

/-- What is missing has no parts. -/
theorem Missing.isScalar {v : Option Value} (h : Missing v) : ∀ w, v = some w → w.IsScalar := by
  rintro w rfl
  rcases h with h | h
  · cases h
  · obtain rfl := Option.some.inj h
    trivial

/-- Nothing is stored for what is missing. -/
theorem Missing.toJson {p : Place} (h : Missing p.value) : p.toJson.Yields .null := by
  obtain ⟨f, v⟩ := p
  rcases h with rfl | rfl
  · exact .pure _
  · cases f with
    | none => exact .pure _
    | some f => exact .pure _

/-- Below something missing everything is, and the path stays as it is spelled. -/
theorem Missing.follow {p : Place} (h : Missing p.value) (q : List String) :
    Missing (p.follow q).1.value ∧ (p.follow q).2 = q := by
  refine ⟨?_, Place.follow_snd_of_scalar h.isScalar q⟩
  cases q with
  | nil => exact h
  | cons s rest =>
    have hnone := Place.value_enter_of_leaf (fun v hv => (h.isScalar v hv).isLeaf) s
    exact .inl (Place.follow_of_none hnone rest)

namespace BreaksOff

variable {kind last : Kind} {v : Option Value} {segments gone : List String}
  {elements more : List PathElement}

/-- A path that breaks off is declared if the rest is. -/
theorem declares (h : BreaksOff kind v segments elements last) (hgone : last.Declares gone more) :
    kind.Declares (segments ++ gone) (elements ++ more) := by
  induction h with
  | missing => exact hgone
  | named hf hown _ ih => exact .named hf hown (ih hgone)
  | item hs _ ih => exact .item hs (ih hgone)
  | entry _ ih => exact .entry (ih hgone)

/-- **Where a path that breaks off leads**: to nothing, and to the storage names up to the point
where the values end, behind which the path stays as it is spelled. -/
theorem follow (h : BreaksOff kind v segments elements last) (gone : List String) {p : Place}
    (hv : p.value = v) :
    Missing (p.follow (segments ++ gone)).1.value ∧
      (p.follow (segments ++ gone)).2 = elements.map PathElement.storageName ++ gone := by
  induction h generalizing p with
  | missing h => exact (hv ▸ h).follow gone
  | @named doc name f rest elements last hf _ _ ih =>
    obtain ⟨field, value⟩ := p
    obtain rfl : value = some (.document doc) := hv
    obtain ⟨hmissing, hstored⟩ := ih (p := Place.inDocument doc name) rfl
    rw [List.cons_append, Place.follow_cons, Place.enter_attribute, doc.storedName_of_field hf,
      hstored]
    exact ⟨hmissing, rfl⟩
  | @item element items s rest elements last _ _ ih =>
    obtain ⟨field, value⟩ := p
    obtain rfl : value = some (.list items) := hv
    obtain ⟨hmissing, hstored⟩ :=
      ih (p := ((Place.mk field (some (.list items))).enter s).1) rfl
    rw [List.cons_append, Place.follow_cons, hstored]
    exact ⟨hmissing, rfl⟩
  | @entry element entries key rest elements last _ ih =>
    obtain ⟨field, value⟩ := p
    obtain rfl : value = some (.dict entries) := hv
    obtain ⟨hmissing, hstored⟩ :=
      ih (p := ((Place.mk field (some (.dict entries))).enter key).1) rfl
    rw [List.cons_append, Place.follow_cons, hstored]
    exact ⟨hmissing, rfl⟩

end BreaksOff

/-- Paths that go on from one path in the store differ in what comes behind it. -/
theorem dotted_append_inj {front rest others : List String} (hrest : ∀ s ∈ rest, IsSegment s)
    (hlength : others.length = rest.length) :
    dotted (front ++ others) = dotted (front ++ rest) ↔ others = rest := by
  refine ⟨fun heq => ?_, fun heq => by rw [heq]⟩
  cases rest with
  | nil => exact List.length_eq_zero_iff.mp hlength
  | cons s rest =>
    have hothers : others ≠ [] := List.ne_nil_of_length_pos (by simp [hlength])
    have hparts := congrArg dottedSegments heq
    rw [dottedSegments_dotted_parts (List.append_ne_nil_of_right_ne_nil front hothers),
      dottedSegments_dotted_parts (by simp), List.flatMap_append, List.flatMap_append,
      List.append_cancel_left_eq, flatMap_dottedSegments hrest] at hparts
    exact eq_of_flatMap_dottedSegments hparts hlength

/-! ### Marks on a document without changes -/

/-- Nothing comes from inside a value but what came from it when less was covered. -/
theorem Nested.of_keeps {d d' : DirtyPaths} {r q : List String} {v : Value} (hkeeps : d.Keeps d')
    (h : Nested d' r v q) : Nested d r v q := by
  induction h with
  | item hv _ ih => exact .item hv (ih hkeeps)
  | entry hv _ ih => exact .entry hv (ih hkeeps)
  | own huncovered h => exact .own (fun hr => huncovered (hkeeps.covered hr)) h
  | inside huncovered hreference hv h =>
    exact .inside (fun hr => huncovered (hkeeps.covered hr)) hreference hv h

namespace Document

variable {d : Document} {path : String}

/-- The only change of a document is a marked path, if there was none before. -/
theorem changedPaths_mark (hclean : d.changesFrom "" = []) (hpath : path ≠ "") :
    (d.mark path).changedPaths = ⟨[path]⟩ := by
  obtain ⟨type, values, dirty, raw⟩ := d
  obtain ⟨hpaths, hinside⟩ := List.append_eq_nil_iff.mp hclean
  obtain ⟨paths⟩ := dirty
  obtain rfl : paths = [] := List.map_eq_nil_iff.mp hpaths
  have hmark : DirtyPaths.empty.mark path = ⟨[path]⟩ := by
    simp [DirtyPaths.mark, hpath, DirtyPaths.covers, DirtyPaths.contains, DirtyPaths.empty,
      DirtyPaths.insertOrdered]
  have hkeeps : DirtyPaths.empty.Keeps ⟨[path]⟩ := hmark ▸ DirtyPaths.keeps_mark .empty path
  have hnone : changesInAttributes type ⟨[path]⟩ "" values = [] := by
    refine List.eq_nil_iff_forall_not_mem.mpr fun p hp => ?_
    obtain ⟨name, v, hv, hreference, hp⟩ := mem_changesInAttributes_iff.mp hp
    obtain ⟨q, hq, rfl⟩ := v.mem_changesAt.mp hp
    have hbefore : "" ++ name ++ "." ++ dotted q ∈ v.changesAt ⟨[]⟩ "" name :=
      v.mem_changesAt.mpr ⟨q, hq.of_keeps hkeeps, rfl⟩
    have hmem := mem_changesInAttributes_iff.mpr ⟨name, v, hv, hreference, hbefore⟩
    rw [hinside] at hmem
    exact List.not_mem_nil hmem
  have hchanges : ((Document.mk type values .empty raw).mark path).changesFrom "" = [path] := by
    simp only [Document.mark, hmark, Document.changesFrom, hnone, List.map_cons, List.map_nil,
      String.empty_append, List.append_nil]
  exact (congrArg (DirtyPaths.markAll .empty) hchanges).trans hmark

/-- A patch removes the path in the store of a changed path that leads to nothing. -/
theorem get?_unsets_patchPaths {paths : List String} {start p : Patch}
    (hmissing : (d.locate path).1.toJson.Yields .null) (hpath : path ∈ paths)
    (h : (d.patchPaths paths start).Gives p) :
    p.unsets.get? (d.locate path).2 = some (.ofNat 1) := by
  have hput : ∀ (start : Patch) (key : String) (j : Json),
      start.unsets.get? (d.locate path).2 = some (.ofNat 1) →
      (start.put key j).unsets.get? (d.locate path).2 = some (.ofNat 1) := by
    intro start key j hstart
    unfold Patch.put
    split
    · rw [Entries.get?_insert, hstart, ite_self]
    · exact hstart
  have hkept : ∀ (paths : List String) (start : Patch), (d.patchPaths paths start).Gives p →
      start.unsets.get? (d.locate path).2 = some (.ofNat 1) →
      p.unsets.get? (d.locate path).2 = some (.ofNat 1) := by
    intro paths
    induction paths with
    | nil =>
      intro start h hstart
      obtain rfl := gives_pure.mp h
      exact hstart
    | cons q rest ih =>
      intro start h hstart
      obtain ⟨j, -, hrest⟩ := Gives.of_bind h
      exact ih _ hrest (hput start _ j hstart)
  induction paths generalizing start with
  | nil => exact absurd hpath List.not_mem_nil
  | cons q rest ih =>
    obtain ⟨j, hj, hrest⟩ := Gives.of_bind h
    by_cases hq : path = q
    · subst hq
      obtain rfl := hmissing.eq_of_gives hj
      exact hkept rest _ hrest (Entries.get?_insert_self _ _ _)
    · exact ih ((List.mem_cons.mp hpath).resolve_left hq) hrest

/-- **Which key a marked path to a missing part removes.** The path resolves. The patch removes the
storage names up to the missing part with the rest of the path as it is spelled behind them: alone
if nothing else has changed, and in any case if the path is among the changed ones. That is the
resolved path in the store exactly if every field behind the missing part is stored under its own
name. -/
theorem unsets_storagePath_iff (c : Catalog) {segments gone : List String}
    {elements more : List PathElement} {last : Kind}
    (hpath : dottedSegments path = segments ++ gone)
    (hlive : BreaksOff (.embedded d.type) (some (.document d)) segments elements last)
    (hgone : last.Declares gone more) :
    c.resolve d.type (dottedSegments path) = .ok (elements ++ more) ∧
    (d.changesFrom "" = [] → path ≠ "" → (d.mark path).incrementalPatch.Yields
      ⟨[], [(dotted (elements.map PathElement.storageName ++ gone), .ofNat 1)]⟩) ∧
    (∀ p, (d.mark path).incrementalPatch.Gives p → path ∈ (d.mark path).changedPaths.paths →
      p.unsets.get? (dotted (elements.map PathElement.storageName ++ gone)) = some (.ofNat 1)) ∧
    (dotted (elements.map PathElement.storageName ++ gone) = storagePath (elements ++ more) ↔
      ∀ f, .field f ∈ more → f.storageName = f.name) := by
  obtain ⟨hmissing, hstored⟩ := hlive.follow gone (p := d.place) rfl
  have hlocate : (d.mark path).locate path = d.locate path := rfl
  have hkey : ((d.mark path).locate path).2 =
      dotted (elements.map PathElement.storageName ++ gone) := by
    rw [hlocate, locate_eq, hpath, hstored]
  have hnull : ((d.mark path).locate path).1.toJson.Yields .null := by
    rw [hlocate, locate_eq, hpath]
    exact hmissing.toJson
  have hsegments : ∀ s ∈ gone, IsSegment s := fun s hs =>
    isSegment_of_mem_dottedSegments (hpath ▸ List.mem_append_right segments hs)
  refine ⟨?_, fun hclean hne => ?_, fun p hp hmem => ?_, ?_⟩
  · rw [hpath]
    exact c.resolve_of_declares (hlive.declares hgone)
  · rw [incrementalPatch, changedPaths_mark hclean hne, ← hkey]
    exact .bind hnull (.pure _)
  · rw [← hkey]
    exact get?_unsets_patchPaths hnull hmem hp
  · rw [storagePath, List.map_append, eq_comm,
      dotted_append_inj hsegments (by rw [List.length_map, hgone.length_eq])]
    exact hgone.storageNames_eq_iff

end Document

/-! ### Albums -/

/-- The field of the title of a page. -/
def pageTitleField : Field := { Field.ofKind "title" (.scalar .string) with storageName := "t" }

/-- Stamps have a motif. -/
def stampType : DocumentType where
  name := "Stamp"
  className := "Stamp"
  collection := none
  fields := [.ofKind "motif" (.scalar .string)]
  primaryKey := none
  isDynamic := false
  allowsInheritance := false
  superclass := none

/-- Pages have a title, and stamps by country. -/
def pageType : DocumentType where
  name := "Page"
  className := "Page"
  collection := none
  fields := [pageTitleField, .dict "stamps" (.embedded stampType)]
  primaryKey := none
  isDynamic := false
  allowsInheritance := false
  superclass := none

/-- The field of the pages of an album. -/
def pagesField : Field := { Field.list "pages" (.embedded pageType) with storageName := "p" }

/-- Albums have pages. -/
def albumType : DocumentType where
  name := "Album"
  className := "Album"
  collection := some "albums"
  fields := [{ Field.ofKind "id" (.scalar .objectId) with storageName := idKey }, pagesField]
  primaryKey := some "id"
  isDynamic := false
  allowsInheritance := false
  superclass := none

theorem albumType_built : stampType.Built ∧ pageType.Built ∧ albumType.Built := by
  let page : Declaration := (Declaration.embedded "Page").withField pageTitleField
  let album : Declaration := (Declaration.document "Album").inCollection "albums"
  exact ⟨⟨(Declaration.embedded "Stamp").withField (.ofKind "motif" (.scalar .string)), rfl⟩,
    ⟨page.withField (.dict "stamps" (.embedded stampType)), rfl⟩,
    ⟨album.withField pagesField, rfl⟩⟩

/-- An album with an empty page, and another one that is null. -/
def album : Document :=
  ⟨albumType,
    [("id", .string "a"), ("pages", .list [.document ⟨pageType, [], .empty, none⟩, .null])],
    .empty, none⟩

/-- The second page of the album is missing. -/
theorem secondPage_breaksOff :
    BreaksOff (.embedded album.type) (some (.document album)) ["pages", "1"]
      [.field pagesField, .position "1"] (.embedded pageType) :=
  .named rfl rfl (.item (by decide) (.missing (.inr rfl)))

/-- Behind the missing page a motif is removed under the resolved path. -/
theorem unsets_storagePath_iff_motif :
    albumType.Built ∧ album.changesFrom "" = [] ∧ ∃ elements,
      Catalog.empty.resolve albumType (dottedSegments "pages.1.stamps.fr.motif") = .ok elements ∧
      (album.mark "pages.1.stamps.fr.motif").incrementalPatch.Yields
        ⟨[], [(storagePath elements, .ofNat 1)]⟩ := by
  have hsegments : dottedSegments "pages.1.stamps.fr.motif" =
      ["pages", "1"] ++ ["stamps", "fr", "motif"] := by decide
  have hclean : album.changesFrom "" = [] := by decide
  have hgone : (Kind.embedded pageType).Declares ["stamps", "fr", "motif"] _ :=
    .named rfl rfl (.entry (.named rfl rfl (.here _)))
  obtain ⟨hresolve, hpatch, -, hkey⟩ :=
    Document.unsets_storagePath_iff .empty hsegments secondPage_breaksOff hgone
  have hnames := hkey.mpr (by
    intro f hf
    simp only [List.mem_cons, PathElement.field.injEq, List.not_mem_nil, or_false] at hf
    rcases hf with rfl | rfl | rfl <;> rfl)
  refine ⟨albumType_built.2.2, hclean, _, hresolve, ?_⟩
  rw [← hnames]
  exact hpatch hclean (by decide)

/-- **The title of the missing page is not removed under the resolved path**, which ends in its
storage name. -/
theorem secondTitle_not_unset :
    albumType.Built ∧ album.changesFrom "" = [] ∧
      dottedSegments "pages.1.title" = ["pages", "1"] ++ ["title"] ∧
      BreaksOff (.embedded album.type) (some (.document album)) ["pages", "1"]
        [.field pagesField, .position "1"] (.embedded pageType) ∧
      (Kind.embedded pageType).Declares ["title"] [.field pageTitleField] ∧
      ¬ ∃ elements,
        Catalog.empty.resolve albumType (dottedSegments "pages.1.title") = .ok elements ∧
        (album.mark "pages.1.title").incrementalPatch.Yields
          ⟨[], [(storagePath elements, .ofNat 1)]⟩ := by
  have hsegments : dottedSegments "pages.1.title" = ["pages", "1"] ++ ["title"] := by decide
  refine ⟨albumType_built.2.2, by decide, hsegments, secondPage_breaksOff,
    .named rfl rfl (.here _), ?_⟩
  rintro ⟨elements, hresolve, hpatch⟩
  have hresolved : Catalog.empty.resolve albumType (dottedSegments "pages.1.title") =
      .ok [.field pagesField, .position "1", .field pageTitleField] := by
    rw [hsegments]
    rfl
  rw [hresolved] at hresolve
  obtain rfl := Except.ok.inj hresolve
  have hremoved : (album.mark "pages.1.title").incrementalPatch.Yields
      ⟨[], [("p.1.title", .ofNat 1)]⟩ := fun _ => rfl
  have hsame := hremoved.eq_of_gives hpatch.gives
  exact absurd (congrArg (fun p => p.unsets.map Prod.fst) hsame) (by decide)

end DocumentMapper
