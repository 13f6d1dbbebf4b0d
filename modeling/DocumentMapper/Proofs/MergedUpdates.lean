import DocumentMapper.Proofs.RenderedEntries

/-!
# One update for several operations

Operations are meant to have the same effect whether they are applied one by one or rendered into
one update, as long as their paths do not overlap. They have, except where two removals go on below
one list: both are rendered at that list, and the update keeps the later one only.

## Main results

* `RendersAt.agrees`: the entries of operations on separate paths agree;
* `applyEach_eq_ok`: applying operations one by one is applying their entries;
* `apply_compileUpdate_of_applyEach`: operations on separate paths that are not rendered at one path
  can be applied together whenever they can be applied one by one, with an equal outcome;
* `articleRemovals_not_applied`: two removals below one list are not both made.
-/

namespace DocumentMapper

open Text

/-- Applies the update of each operation alone, one after the other. -/
def applyEach (c : Catalog) (t : DocumentType) (filter : Object) (inserting : Bool) :
    Conditions → Object → Drawing Object
  | [], doc => return doc
  | operation :: rest, doc => do
    let update ← compileUpdate c t [operation]
    let applied := doc.apply filter update inserting
    match applied.failure with
    | some cause => throw (.store cause)
    | none => applyEach c t filter inserting rest applied.doc

/-- Operations on separate paths: their keywords resolve to paths of names, none of which is
another one or above it, and none of them renames or is raw. -/
structure Separate (c : Catalog) (t : DocumentType) (operations : Conditions) : Prop where
  keyword : ∀ e ∈ operations, e.1 ≠ rawKey ∧ (keywordSegments e.1).head? ≠ some "rename"
  named : ∀ e ∈ operations, ∀ op elements,
    resolvedOperation? c t e.1 = some (op, elements) → NamesOnly (storagePath elements)
  apart : operations.Pairwise fun e f => ∀ a as b bs,
    resolvedOperation? c t e.1 = some (a, as) → resolvedOperation? c t f.1 = some (b, bs) →
      storagePath as ≠ storagePath bs ∧ isAbove (storagePath as) (storagePath bs) = false ∧
        isAbove (storagePath bs) (storagePath as) = false

/-- No two operations are rendered at one path. -/
def RenderedApart (c : Catalog) (t : DocumentType) (operations : Conditions) : Prop :=
  operations.Pairwise fun e f => ∀ a as b bs,
    resolvedOperation? c t e.1 = some (a, as) → resolvedOperation? c t f.1 = some (b, bs) →
      renderedPath a as ≠ renderedPath b bs

/-! ### Entries of separate operations -/

namespace RendersAt

variable {a b : String} {as bs : List PathElement} {e f : UpdateEntry}

/-- An entry is at the path of its elements or above it. -/
theorem segments_prefix (h : RendersAt a as e) :
    e.segments <+: dottedSegments (storagePath as) := by
  rcases h.above with hpath | ⟨-, habove⟩
  · have hsegments : e.segments = dottedSegments (storagePath as) := congrArg dottedSegments hpath
    exact hsegments ▸ List.prefix_refl _
  · obtain ⟨rest, -, hrest⟩ := isAbove_iff.mp habove
    exact ⟨rest, hrest.symm⟩

/-- An entry at or above the path of another one removes items there. -/
theorem pullsAbove (he : RendersAt a as e) (hf : RendersAt b bs f)
    (hne : storagePath as ≠ storagePath bs)
    (habove : isAbove (storagePath as) (storagePath bs) = false)
    (hrendered : renderedPath a as ≠ renderedPath b bs) (h : e.segments <+: f.segments) :
    e.PullsAbove f := by
  rcases he.above with hpath | ⟨hpull, -⟩
  · have hprefix : dottedSegments (storagePath as) <+: dottedSegments (storagePath bs) := by
      rw [← hpath]
      exact h.trans hf.segments_prefix
    simpa [hne, habove] using eq_or_isAbove_iff.mpr hprefix
  · obtain ⟨rest, hrest⟩ := h
    refine ⟨hpull, rest, fun hnil => hrendered ?_, hrest.symm⟩
    rw [← he.path, ← hf.path]
    rw [hnil, List.append_nil] at hrest
    exact dottedSegments_injective hrest

/-- **The entries of operations on separate paths agree**, unless they are rendered at one path. -/
theorem agrees (he : RendersAt a as e) (hf : RendersAt b bs f)
    (hnames : NamesOnly (storagePath as)) (hne : storagePath as ≠ storagePath bs)
    (habove : isAbove (storagePath as) (storagePath bs) = false)
    (hbelow : isAbove (storagePath bs) (storagePath as) = false)
    (hrendered : renderedPath a as ≠ renderedPath b bs) : e.Agrees f := by
  by_cases hef : e.segments <+: f.segments
  · exact .inr (.inl (he.pullsAbove hf hne habove hrendered hef))
  · by_cases hfe : f.segments <+: e.segments
    · exact .inr (.inr (hf.pullsAbove he hne.symm hbelow hrendered.symm hfe))
    · have hnamed : Named e.segments := fun s hs =>
        (hnames s (he.segments_prefix.subset hs)).1
      exact .inl (hnamed.apart hef hfe)

end RendersAt

/-! ### Operations one by one -/

/-- An entry is what an operation on a path of names is rendered as. -/
structure RenderedFrom (c : Catalog) (t : DocumentType) (operation : String × Value)
    (e : UpdateEntry) : Prop where
  renders : ∃ op elements, resolvedOperation? c t operation.1 = some (op, elements) ∧
    NamesOnly (storagePath elements) ∧ op ≠ "rename" ∧ RendersAt op elements e
  operand : e.operand.WellFormed

section

variable {c : Catalog} {t : DocumentType} {filter : Object} {inserting : Bool}

/-- The entry of an operation can be reordered. -/
theorem RenderedFrom.sound {operation : String × Value} {e : UpdateEntry}
    (h : RenderedFrom c t operation e) : e.Sound := by
  obtain ⟨op, elements, -, hnames, hrename, hrenders⟩ := h.renders
  exact ⟨fun s hs => (hnames s (hrenders.segments_prefix.subset hs)).1,
    hrenders.keepsName hrename, h.operand⟩

/-- The entry of an operation has no positional segment. -/
theorem RenderedFrom.plain {operation : String × Value} {e : UpdateEntry}
    (h : RenderedFrom c t operation e) : "$" ∉ dottedSegments e.path := by
  obtain ⟨op, elements, -, hnames, -, hrenders⟩ := h.renders
  intro hmem
  exact (hnames "$" (hrenders.segments_prefix.subset hmem)).2.2 rfl

/-- The operator of a keyword is its first segment. -/
theorem head?_of_resolvedOperation? {key op : String} {elements : List PathElement}
    (h : resolvedOperation? c t key = some (op, elements)) :
    (keywordSegments key).head? = some op := by
  unfold resolvedOperation? at h
  cases hsegments : keywordSegments key with
  | nil => simp [hsegments] at h
  | cons first rest =>
    rw [hsegments] at h
    obtain ⟨es, -, heq⟩ := Option.map_eq_some_iff.mp h
    rw [(Prod.mk.inj heq).1]
    rfl

/-- The update of one operation has one entry, made from the operation. -/
theorem compileUpdate_single_renders {key : String} {v : Value} {s u : Supply} {update : Object}
    (hkey : key ≠ rawKey ∧ (keywordSegments key).head? ≠ some "rename")
    (hnames : ∀ op elements, resolvedOperation? c t key = some (op, elements) →
      NamesOnly (storagePath elements))
    (hwf : Object.WellFormed update)
    (h : (compileUpdate c t [(key, v)]).runFrom s = (.ok update, u)) :
    ∃ e, (compileOperation c t key v).runFrom s = (.ok (e.operator, [(e.path, e.operand)]), u) ∧
      RenderedFrom c t (key, v) e ∧ IsUpdate update ∧ entriesOf update = [e] := by
  simp only [compileUpdate, compileOperations, if_neg hkey.1] at h
  obtain ⟨result, u', hrun, hpure⟩ := Drawing.runFrom_bind_eq_ok.mp h
  obtain ⟨op, elements, hresolved, e, rfl, hrenders⟩ := compileOperation_renders hnames hrun
  simp only [Drawing.runFrom_pure, Prod.mk.injEq, Except.ok.injEq] at hpure
  obtain ⟨rfl, rfl⟩ := hpure
  have hupdate : addOperation [] e.operator [(e.path, e.operand)] =
      [(e.operator, .object [(e.path, e.operand)])] := rfl
  rw [hupdate] at hwf ⊢
  have hrename : op ≠ "rename" := by
    rintro rfl
    exact hkey.2 (head?_of_resolvedOperation? hresolved)
  have hbody := (Json.wellFormed_object.mp hwf).2 _ List.mem_cons_self
  have hoperand := (Json.wellFormed_object.mp hbody).2 _ List.mem_cons_self
  refine ⟨e, hrun, ⟨⟨op, elements, hresolved, hnames op elements hresolved, hrename, hrenders⟩,
    hoperand⟩, ?_, rfl⟩
  simpa [IsUpdate] using hrenders.operator

/-- **Applying operations one by one is applying their entries.** -/
theorem applyEach_eq_ok {operations : Conditions} {doc doc' : Object} {s s' : Supply}
    (hkeys : ∀ e ∈ operations, e.1 ≠ rawKey ∧ (keywordSegments e.1).head? ≠ some "rename")
    (hnames : ∀ e ∈ operations, ∀ op elements,
      resolvedOperation? c t e.1 = some (op, elements) → NamesOnly (storagePath elements))
    (hwf : ∀ e ∈ operations, ∀ update, (compileUpdate c t [e]).Gives update →
      Object.WellFormed update)
    (h : (applyEach c t filter inserting operations doc).runFrom s = (.ok doc', s')) :
    ∃ entries, RenderedAs c t operations s entries s' ∧
      List.Forall₂ (RenderedFrom c t) operations entries ∧
      actAll inserting entries doc = ⟨doc', none⟩ := by
  induction operations generalizing doc s with
  | nil =>
    simp only [applyEach, Drawing.runFrom_pure, Prod.mk.injEq, Except.ok.injEq] at h
    obtain ⟨rfl, rfl⟩ := h
    exact ⟨[], .nil s, .nil, rfl⟩
  | cons operation rest ih =>
    obtain ⟨key, v⟩ := operation
    obtain ⟨hkey, hkeys⟩ := List.forall_mem_cons.mp hkeys
    obtain ⟨hname, hnames⟩ := List.forall_mem_cons.mp hnames
    obtain ⟨hfirst, hwf⟩ := List.forall_mem_cons.mp hwf
    obtain ⟨update, u, hcompile, h⟩ := Drawing.runFrom_bind_eq_ok.mp h
    obtain ⟨e, hrun, hfrom, hupdate, hentries⟩ :=
      compileUpdate_single_renders hkey hname (hfirst update ⟨s, u, hcompile⟩) hcompile
    have hne : update ≠ [] := by
      rintro rfl
      cases hentries
    have happly : doc.apply filter update inserting = actAll inserting [e] doc := by
      rw [← hentries]
      refine Object.apply_eq_actAll hupdate hne ?_ doc
      simpa [hentries] using hfrom.plain
    simp only at h
    cases hfailure : (doc.apply filter update inserting).failure with
    | some cause =>
      rw [hfailure] at h
      simp at h
    | none =>
      rw [hfailure] at h
      obtain ⟨entries, hrest, hforall, hact⟩ := ih hkeys hnames hwf h
      refine ⟨e :: entries, .cons hkey.1 hrun hrest, .cons hfrom hforall, ?_⟩
      have hsplit : actAll inserting (e :: entries) doc =
          (doc.apply filter update inserting).andThen (actAll inserting entries) := by
        rw [happly, ← actAll_append]
        rfl
      rw [hsplit, Applied.andThen, hfailure]
      exact hact

/-- A first operation that always renders the same update, and the operations behind it. -/
theorem applyEach_yields {operation : String × Value} {rest : Conditions} {update : Object}
    {doc doc₁ doc' : Object} (hupdate : (compileUpdate c t [operation]).Yields update)
    (happly : doc.apply filter update inserting = ⟨doc₁, none⟩)
    (hrest : (applyEach c t filter inserting rest doc₁).Yields doc') :
    (applyEach c t filter inserting (operation :: rest) doc).Yields doc' := by
  refine hupdate.bind ?_
  rw [happly]
  exact hrest

/-! ### Lists made one by one -/

/-- What is made from the members of a list, one by one, is made from one of them. -/
theorem exists_of_mem_forall₂ {α β : Type} {F : α → β → Prop} {as : List α} {bs : List β}
    (h : List.Forall₂ F as bs) {b : β} (hb : b ∈ bs) : ∃ a ∈ as, F a b := by
  induction h with
  | nil => cases hb
  | cons hab hrest ih =>
    rcases List.mem_cons.mp hb with rfl | hb
    · exact ⟨_, List.mem_cons_self, hab⟩
    · obtain ⟨a, ha, hF⟩ := ih hb
      exact ⟨a, List.mem_cons_of_mem _ ha, hF⟩

/-- What is made from the members of a list, one by one, is related where the members are. -/
theorem pairwise_of_forall₂ {α β : Type} {F : α → β → Prop} {Q : α → α → Prop}
    {R : β → β → Prop} (hR : ∀ {a a' b b'}, F a b → F a' b' → Q a a' → R b b') {as : List α}
    {bs : List β} (h : List.Forall₂ F as bs) (hQ : as.Pairwise Q) : bs.Pairwise R := by
  induction h with
  | nil => exact .nil
  | @cons a b as bs hab hrest ih =>
    obtain ⟨hfirst, hQ⟩ := List.pairwise_cons.mp hQ
    refine List.pairwise_cons.mpr ⟨fun b' hb' => ?_, ih hQ⟩
    obtain ⟨a', ha', hab'⟩ := exists_of_mem_forall₂ hrest hb'
    exact hR hab hab' (hfirst a' ha')

end

/-! ### Operations with one outcome -/

/-- An operation is rendered as one entry, whatever was drawn before. -/
structure AlwaysRenders (c : Catalog) (t : DocumentType) (operation : String × Value) (op : String)
    (elements : List PathElement) (e : UpdateEntry) : Prop where
  key : operation.1 ≠ rawKey
  resolved : resolvedOperation? c t operation.1 = some (op, elements)
  yields : (compileOperation c t operation.1 operation.2).Yields
    (e.operator, [(e.path, e.operand)])

section

variable {c : Catalog} {t : DocumentType} {x y : String × Value} {a b : String}
  {as bs : List PathElement} {e f : UpdateEntry}

/-- An operation whose operand draws nothing is always rendered the same. -/
theorem AlwaysRenders.of_segments {first : String} {more : List String} {g : Field}
    (operand : Json) (hop : a ∈ updateOperators)
    (hsegments : keywordSegments x.1 = a :: first :: more)
    (hcomparison : comparisonOf (first :: more) = (none, first :: more))
    (hvalue : (operationValue a x.1 x.2).Yields x.2)
    (hresolve : c.resolve t (dropEscape (first :: more)) = .ok as)
    (hfield : terminalField? as = some g)
    (hoperand : (g.updateOperand (nativeOperator a) none x.2).Yields operand)
    (hbody : operationBody (nativeOperator a) as operand = (e.operator, [(e.path, e.operand)])) :
    AlwaysRenders c t x a as e where
  key := by
    intro hraw
    rw [hraw] at hsegments
    have hempty : "" = a := (List.cons.inj hsegments).1
    exact absurd (hempty ▸ hop) (by decide)
  resolved := resolvedOperation?_of_segments hsegments (by rw [hcomparison]; exact hresolve)
  yields := by
    have hquery : (c.resolveQuery t (dropEscape (first :: more))).Yields as := fun s =>
      runFrom_resolveQuery_eq_ok.mpr ⟨hresolve, rfl⟩
    rw [compileOperation_of_segments hop hsegments, hcomparison, ← hbody]
    refine hvalue.bind (hquery.bind ?_)
    rw [hfield]
    exact hoperand.bind (.pure _)

/-- The update of one operation. -/
theorem AlwaysRenders.compileUpdate_single (h : AlwaysRenders c t x a as e) :
    (compileUpdate c t [x]).Yields [(e.operator, .object [(e.path, e.operand)])] := by
  obtain ⟨key, v⟩ := x
  simp only [compileUpdate, compileOperations, if_neg h.key]
  exact h.yields.bind (.pure _)

/-- The update of two operations. -/
theorem AlwaysRenders.compileUpdate_pair (hx : AlwaysRenders c t x a as e)
    (hy : AlwaysRenders c t y b bs f) :
    (compileUpdate c t [x, y]).Yields (addOperation
      [(e.operator, .object [(e.path, e.operand)])] f.operator [(f.path, f.operand)]) := by
  obtain ⟨key, v⟩ := x
  obtain ⟨key', v'⟩ := y
  simp only [compileUpdate, compileOperations, if_neg hx.key, if_neg hy.key]
  exact hx.yields.bind (hy.yields.bind (.pure _))

/-- Applying two operations, one after the other. -/
theorem AlwaysRenders.applyEach_pair (hx : AlwaysRenders c t x a as e)
    (hy : AlwaysRenders c t y b bs f) (filter doc : Object) (inserting : Bool)
    {doc₁ doc₂ : Object}
    (hfirst : doc.apply filter [(e.operator, .object [(e.path, e.operand)])] inserting =
      ⟨doc₁, none⟩)
    (hsecond : doc₁.apply filter [(f.operator, .object [(f.path, f.operand)])] inserting =
      ⟨doc₂, none⟩) : (applyEach c t filter inserting [x, y] doc).Yields doc₂ :=
  applyEach_yields hx.compileUpdate_single hfirst
    (applyEach_yields hy.compileUpdate_single hsecond (.pure _))

/-- Two operations on separate paths. -/
theorem AlwaysRenders.separate (hx : AlwaysRenders c t x a as e)
    (hy : AlwaysRenders c t y b bs f) (hrename : a ≠ "rename" ∧ b ≠ "rename")
    (hnames : NamesOnly (storagePath as) ∧ NamesOnly (storagePath bs))
    (hapart : storagePath as ≠ storagePath bs ∧ isAbove (storagePath as) (storagePath bs) = false ∧
      isAbove (storagePath bs) (storagePath as) = false) : Separate c t [x, y] where
  keyword := by
    intro z hz
    rcases List.mem_cons.mp hz with rfl | hz
    · rw [head?_of_resolvedOperation? hx.resolved]
      exact ⟨hx.key, by simpa using hrename.1⟩
    · obtain rfl := List.mem_singleton.mp hz
      rw [head?_of_resolvedOperation? hy.resolved]
      exact ⟨hy.key, by simpa using hrename.2⟩
  named := by
    intro z hz op elements h
    rcases List.mem_cons.mp hz with rfl | hz
    · obtain ⟨rfl, rfl⟩ := Prod.mk.inj (Option.some.inj (hx.resolved.symm.trans h))
      exact hnames.1
    · obtain rfl := List.mem_singleton.mp hz
      obtain ⟨rfl, rfl⟩ := Prod.mk.inj (Option.some.inj (hy.resolved.symm.trans h))
      exact hnames.2
  apart := by
    refine List.pairwise_pair.mpr fun a' as' b' bs' h h' => ?_
    obtain ⟨rfl, rfl⟩ := Prod.mk.inj (Option.some.inj (hx.resolved.symm.trans h))
    obtain ⟨rfl, rfl⟩ := Prod.mk.inj (Option.some.inj (hy.resolved.symm.trans h'))
    exact hapart

/-- Two operations that are rendered at different paths. -/
theorem AlwaysRenders.renderedApart (hx : AlwaysRenders c t x a as e)
    (hy : AlwaysRenders c t y b bs f) (h : renderedPath a as ≠ renderedPath b bs) :
    RenderedApart c t [x, y] := by
  refine List.pairwise_pair.mpr fun a' as' b' bs' ha hb => ?_
  obtain ⟨rfl, rfl⟩ := Prod.mk.inj (Option.some.inj (hx.resolved.symm.trans ha))
  obtain ⟨rfl, rfl⟩ := Prod.mk.inj (Option.some.inj (hy.resolved.symm.trans hb))
  exact h

end

/-! ### Remarks on an article -/

/-- A remark has an author and votes. -/
def remarkType : DocumentType where
  name := "Remark"
  className := "Remark"
  collection := none
  fields := [.ofKind "author" (.scalar .string), .ofKind "votes" (.scalar .int)]
  primaryKey := none
  isDynamic := false
  allowsInheritance := false
  superclass := none

/-- An article has a title and remarks. -/
def articleType : DocumentType where
  name := "Article"
  className := "Article"
  collection := some "articles"
  fields := [{ Field.ofKind "id" (.scalar .objectId) with storageName := idKey },
    .ofKind "title" (.scalar .string), .list "remarks" (.embedded remarkType)]
  primaryKey := some "id"
  isDynamic := false
  allowsInheritance := false
  superclass := none

theorem articleType_built : articleType.Built := by
  let plain : Declaration := (Declaration.document "Article").inCollection "articles"
  exact ⟨(plain.withField (.ofKind "title" (.scalar .string))).withField
    (.list "remarks" (.embedded remarkType)), rfl⟩

/-- An article with two remarks. -/
def article : Object :=
  [("_id", .ofInt64 1), ("title", .string "old"), ("remarks", .array [
    .object [("author", .string "ann"), ("votes", .ofInt64 1)],
    .object [("author", .string "bob"), ("votes", .ofInt64 3)]])]

theorem article_wellFormed : article.WellFormed := by
  simp [article, Object.WellFormed, Json.WellFormed, Json.ofInt64]

/-- The path to a part of the remarks on an article. -/
def remarkPart (f : Field) : List PathElement :=
  [.field (.list "remarks" (.embedded remarkType)), .field f]

/-- The path to the title of an article. -/
def titlePart : List PathElement :=
  [.field (.ofKind "title" (.scalar .string))]

/-- The removal of the remarks of an author. -/
def authorRemoval : String × Value :=
  ("pull__remarks__author", .string "ann")

/-- The removal of the remarks with three votes. -/
def votesRemoval : String × Value :=
  ("pull__remarks__votes", .int 3)

/-- A new title. -/
def titleChange : String × Value :=
  ("set__title", .string "new")

theorem authorRemoval_renders : AlwaysRenders .empty articleType authorRemoval "pull"
    (remarkPart (.ofKind "author" (.scalar .string)))
    ⟨"$pull", "remarks", .object [("author", .string "ann")]⟩ := by
  have hsegments : keywordSegments authorRemoval.1 = ["pull", "remarks", "author"] := rfl
  exact .of_segments (.string "ann") (by decide) hsegments rfl (fun _ => rfl) rfl rfl (fun _ => rfl)
    rfl

theorem votesRemoval_renders : AlwaysRenders .empty articleType votesRemoval "pull"
    (remarkPart (.ofKind "votes" (.scalar .int)))
    ⟨"$pull", "remarks", .object [("votes", .ofInt64 3)]⟩ := by
  have hsegments : keywordSegments votesRemoval.1 = ["pull", "remarks", "votes"] := rfl
  exact .of_segments (.ofInt64 3) (by decide) hsegments rfl (fun _ => rfl) rfl rfl (fun _ => rfl) rfl

theorem titleChange_renders : AlwaysRenders .empty articleType titleChange "set" titlePart
    ⟨"$set", "title", .string "new"⟩ := by
  have hsegments : keywordSegments titleChange.1 = ["set", "title"] := rfl
  exact .of_segments (.string "new") (by decide) hsegments rfl (fun _ => rfl) rfl rfl (fun _ => rfl)
    rfl

theorem storagePath_author :
    storagePath (remarkPart (.ofKind "author" (.scalar .string))) = "remarks.author" :=
  rfl

theorem storagePath_votes :
    storagePath (remarkPart (.ofKind "votes" (.scalar .int))) = "remarks.votes" :=
  rfl

theorem storagePath_title : storagePath titlePart = "title" :=
  rfl

theorem names_author : NamesOnly (storagePath (remarkPart (.ofKind "author" (.scalar .string)))) :=
  .of_segments ["remarks", "author"] rfl (by decide)

theorem names_votes : NamesOnly (storagePath (remarkPart (.ofKind "votes" (.scalar .int)))) :=
  .of_segments ["remarks", "votes"] rfl (by decide)

theorem names_title : NamesOnly (storagePath titlePart) :=
  .of_segments ["title"] rfl (by decide)

/-! ### Operations together -/

/-- **Operations that can be applied one by one can be applied together, with an equal outcome**, if
their paths are separate and no two of them are rendered at one path. -/
theorem apply_compileUpdate_of_applyEach {c : Catalog} {t : DocumentType} {filter : Object}
    {inserting : Bool} {operations : Conditions} {doc doc' : Object} {s s' : Supply}
    (hne : operations ≠ []) (hseparate : Separate c t operations)
    (hrendered : RenderedApart c t operations) (hdoc : doc.WellFormed)
    (hwf : ∀ e ∈ operations, ∀ update, (compileUpdate c t [e]).Gives update →
      Object.WellFormed update)
    (h : (applyEach c t filter inserting operations doc).runFrom s = (.ok doc', s')) :
    ∃ update, (compileUpdate c t operations).runFrom s = (.ok update, s') ∧
      ∃ joint, doc.apply filter update inserting = ⟨joint, none⟩ ∧ joint.equal doc' = true := by
  obtain ⟨entries, hentries, hforall, hact⟩ :=
    applyEach_eq_ok hseparate.keyword hseparate.named hwf h
  have hfrom : ∀ e ∈ entries, ∃ operation, RenderedFrom c t operation e := fun e he =>
    (exists_of_mem_forall₂ hforall he).imp fun _ h => h.2
  have hboth := hseparate.apart.and hrendered
  have hagree : entries.Pairwise UpdateEntry.Agrees := by
    refine pairwise_of_forall₂ (fun he hf hQ => ?_) hforall hboth
    obtain ⟨a, as, ha, hnames, -, hrenders⟩ := he.renders
    obtain ⟨b, bs, hb, -, -, hrenders'⟩ := hf.renders
    obtain ⟨hpaths, habove, hbelow⟩ := hQ.1 a as b bs ha hb
    exact hrenders.agrees hrenders' hnames hpaths habove hbelow (hQ.2 a as b bs ha hb)
  have hplaces : entries.Pairwise fun e f => ¬ SamePlace e f := by
    refine pairwise_of_forall₂ (fun he hf hQ hsame => ?_) hforall hboth
    obtain ⟨a, as, ha, -, -, hrenders⟩ := he.renders
    obtain ⟨b, bs, hb, -, -, hrenders'⟩ := hf.renders
    exact hQ.2 a as b bs ha hb (hrenders.path.symm.trans (hsame.2.trans hrenders'.path))
  have hoperators : ∀ e ∈ entries, beginsWith "$" e.operator = true := by
    intro e he
    obtain ⟨operation, hoperation⟩ := hfrom e he
    obtain ⟨op, elements, -, -, -, hrenders⟩ := hoperation.renders
    exact hrenders.operator
  have hempty : IsUpdate [] := fun _ hmem => absurd hmem List.not_mem_nil
  obtain ⟨update, hcompile, hupdate, hperm⟩ :=
    compileOperations_merges hentries hoperators hempty (by simpa [entriesOf] using hplaces)
  have hperm : entries.Perm (entriesOf update) := by simpa [entriesOf] using hperm.symm
  have hupdateNe : update ≠ [] := by
    rintro rfl
    have hnil : entries = [] := List.Perm.eq_nil hperm
    rw [hnil] at hforall
    exact hne (List.forall₂_nil_right_iff.mp hforall)
  have hplain : ∀ e ∈ entriesOf update, "$" ∉ dottedSegments e.path := by
    intro e he
    obtain ⟨operation, hoperation⟩ := hfrom e (hperm.mem_iff.mpr he)
    exact hoperation.plain
  have hsound : ∀ e ∈ entries, e.Sound := by
    intro e he
    obtain ⟨operation, hoperation⟩ := hfrom e he
    exact hoperation.sound
  obtain ⟨joint, hjoint, hequal⟩ := actAll_perm hperm hagree hsound hdoc hact
  refine ⟨update, hcompile, joint, ?_, hequal⟩
  rw [Object.apply_eq_actAll hupdate hupdateNe hplain, hjoint]

/-- A removal below the remarks and a new title can be applied together. -/
theorem apply_compileUpdate_article : [authorRemoval, titleChange] ≠ [] ∧
    Separate .empty articleType [authorRemoval, titleChange] ∧
    RenderedApart .empty articleType [authorRemoval, titleChange] ∧ article.WellFormed ∧
    (∀ e ∈ [authorRemoval, titleChange], ∀ update,
      (compileUpdate .empty articleType [e]).Gives update → Object.WellFormed update) ∧
    ∃ doc', (applyEach .empty articleType [] false [authorRemoval, titleChange] article).runFrom
        .fresh = (.ok doc', .fresh) ∧
      ∃ update, (compileUpdate .empty articleType [authorRemoval, titleChange]).runFrom .fresh =
          (.ok update, .fresh) ∧
        ∃ joint, article.apply [] update false = ⟨joint, none⟩ ∧ joint.equal doc' = true := by
  have hne : [authorRemoval, titleChange] ≠ [] := by simp
  have hseparate : Separate .empty articleType [authorRemoval, titleChange] :=
    authorRemoval_renders.separate titleChange_renders (by decide) ⟨names_author, names_title⟩
      (by rw [storagePath_author, storagePath_title]; decide)
  have hrendered : RenderedApart .empty articleType [authorRemoval, titleChange] := by
    have hremarks : renderedPath "pull" (remarkPart (.ofKind "author" (.scalar .string))) =
        "remarks" := rfl
    have htitle : renderedPath "set" titlePart = "title" := rfl
    refine authorRemoval_renders.renderedApart titleChange_renders ?_
    rw [hremarks, htitle]
    decide
  have hwf : ∀ e ∈ [authorRemoval, titleChange], ∀ update,
      (compileUpdate .empty articleType [e]).Gives update → Object.WellFormed update := by
    intro e he update hupdate
    rcases List.mem_cons.mp he with rfl | he
    · rw [authorRemoval_renders.compileUpdate_single.eq_of_gives hupdate]
      simp [Object.WellFormed, Json.WellFormed]
    · obtain rfl := List.mem_singleton.mp he
      rw [titleChange_renders.compileUpdate_single.eq_of_gives hupdate]
      simp [Object.WellFormed, Json.WellFormed]
  have hrun := authorRemoval_renders.applyEach_pair titleChange_renders [] article false rfl rfl
  exact ⟨hne, hseparate, hrendered, article_wellFormed, hwf, _, hrun .fresh,
    apply_compileUpdate_of_applyEach hne hseparate hrendered article_wellFormed hwf (hrun .fresh)⟩

/-- **Two removals below one list are not both made**: the remarks of an author and those with three
votes are removed one after the other, but only the latter together. -/
theorem articleRemovals_not_applied : articleType.Built ∧
    Separate .empty articleType [authorRemoval, votesRemoval] ∧ article.WellFormed ∧
    ∃ doc', (applyEach .empty articleType [] false [authorRemoval, votesRemoval] article).runFrom
        .fresh = (.ok doc', .fresh) ∧
      ∃ update, (compileUpdate .empty articleType [authorRemoval, votesRemoval]).runFrom .fresh =
          (.ok update, .fresh) ∧
        ∃ joint, article.apply [] update false = ⟨joint, none⟩ ∧ joint.equal doc' = false := by
  have hseparate : Separate .empty articleType [authorRemoval, votesRemoval] :=
    authorRemoval_renders.separate votesRemoval_renders (by decide) ⟨names_author, names_votes⟩
      (by rw [storagePath_author, storagePath_votes]; decide)
  have hrun := authorRemoval_renders.applyEach_pair votesRemoval_renders [] article false rfl rfl
  have htogether := authorRemoval_renders.compileUpdate_pair votesRemoval_renders
  exact ⟨articleType_built, hseparate, article_wellFormed, _, hrun .fresh, _, htogether .fresh, _,
    rfl, by decide⟩

end DocumentMapper
