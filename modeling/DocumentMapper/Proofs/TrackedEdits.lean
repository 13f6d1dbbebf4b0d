import DocumentMapper.Proofs.EditClosure

/-!
# Tracked edits keep the promise

The ways to change a document that record what they do: assigning an attribute, and visiting an
attribute to change a list, a dict or a document inside it by any sequence of the operations of
their views. Each of them keeps the promise that the changed paths make.

Names count as long as they are paths of one segment. An attribute can be excepted from the edits;
the primary key is, where the edits leave it alone.

## Main results

* `editClosed_keepsPromise`: the promise is closed under edits;
* `Value.visit_keeps`: a visit keeps the promise of the value that it starts with;
* `Document.Edited.keeps`: edits keep the promise of a document;
* `Document.Edited.leaves`: edits leave the excepted attribute alone.
-/

namespace DocumentMapper

open Text

/-! ### Records that grow at a position -/

/-- A record has grown by paths at a position or below it. -/
structure DirtyPaths.GrowsAt (d d' : DirtyPaths) (r : List String) : Prop where
  keeps : d.Keeps d'
  new : ∀ m ∈ d'.segments, m ∈ d.segments ∨ r <+: m

namespace DirtyPaths

theorem GrowsAt.refl (d : DirtyPaths) (r : List String) : d.GrowsAt d r :=
  ⟨.refl d, fun _ hm => .inl hm⟩

theorem GrowsAt.trans {d d' d'' : DirtyPaths} {r : List String} (h : d.GrowsAt d' r)
    (h' : d'.GrowsAt d'' r) : d.GrowsAt d'' r := by
  refine ⟨h.keeps.trans h'.keeps, fun m hm => ?_⟩
  rcases h'.new m hm with hm | hm
  · exact h.new m hm
  · exact .inr hm

/-- A record that has grown below a position has grown there. -/
theorem GrowsAt.above {d d' : DirtyPaths} {r s : List String} (h : d.GrowsAt d' s)
    (hrs : r <+: s) : d.GrowsAt d' r :=
  ⟨h.keeps, fun m hm => (h.new m hm).imp id hrs.trans⟩

/-- Marking a path grows the record there. -/
theorem growsAt_mark (d : DirtyPaths) (path : String) :
    d.GrowsAt (d.mark path) (dottedSegments path) := by
  refine ⟨d.keeps_mark path, fun m hm => ?_⟩
  rcases mem_segments_mark hm with hm | rfl
  · exact .inl hm
  · exact .inr (List.prefix_refl _)

end DirtyPaths

open DirtyPaths

/-- The promise for a part outlasts what is recorded at another part of the same value. -/
theorem Tracks.beside {d d' : DirtyPaths} {r : List String} {s t : String}
    {before now : Option Value} (h : Tracks d (r ++ [s]) before now)
    (hgrows : d.GrowsAt d' (r ++ [t])) (hst : s ≠ t) : Tracks d' (r ++ [s]) before now := by
  refine h.mono hgrows.keeps fun m hm hsm => ?_
  rcases hgrows.new m hm with hm | htm
  · exact hm
  · exact absurd (eq_of_prefix_concat hsm htm) hst

/-! ### What an edit of a value keeps -/

/-- From one record and value to the next, the promise for the position is kept, and nothing is
recorded elsewhere. -/
structure KeepsPromise (r : List String) (d : DirtyPaths) (v : Value) (d' : DirtyPaths)
    (v' : Value) : Prop where
  grows : d.GrowsAt d' r
  tracks : ∀ before, Tracks d r before (some v) → Tracks d' r before (some v')

theorem KeepsPromise.refl (r : List String) (d : DirtyPaths) (v : Value) :
    KeepsPromise r d v d v :=
  ⟨.refl d r, fun _ h => h⟩

theorem KeepsPromise.trans {r : List String} {d d' d'' : DirtyPaths} {v v' v'' : Value}
    (h : KeepsPromise r d v d' v') (h' : KeepsPromise r d' v' d'' v'') :
    KeepsPromise r d v d'' v'' :=
  ⟨h.grows.trans h'.grows, fun before ht => h'.tracks before (h.tracks before ht)⟩

/-- Marking the position keeps the promise, whatever the value becomes. -/
theorem keepsPromise_mark {d : DirtyPaths} {path : String} (hpath : path ≠ "") (v v' : Value) :
    KeepsPromise (dottedSegments path) d v (d.mark path) v' :=
  ⟨d.growsAt_mark path, fun _ _ => .covered _ _ (d.covered_mark_self hpath)⟩

/-- An edit of one item keeps the promise of its list. -/
theorem keepsPromise_item {r : List String} {d d' : DirtyPaths} {items : List Value} {i : Nat}
    {v v' : Value} (hi : items[i]? = some v)
    (h : KeepsPromise (r ++ [toString i]) d v d' v') :
    KeepsPromise r d (.list items) d' (.list (items.set i v')) := by
  have hlt : i < items.length := (List.getElem?_eq_some_iff.mp hi).1
  refine ⟨h.grows.above (List.prefix_append _ _), fun before ht => ?_⟩
  cases ht with
  | covered before now hcovered => exact .covered _ _ (h.grows.keeps.covered hcovered)
  | leaf hleaf _ => exact absurd hleaf id
  | @list _ _ olds _ hlength hmarks hitems =>
    refine .list (by simpa using hlength) (fun m hm hrm => ?_) fun k hk => ?_
    · rcases h.grows.new m hm with hm | him
      · simpa using hmarks m hm hrm
      · exact ⟨i, by simpa using hlt, him⟩
    · rw [List.length_set] at hk
      by_cases hki : k = i
      · subst hki
        rw [List.getElem?_set_self hlt]
        have hitem := hitems k hk
        rw [hi] at hitem
        exact h.tracks _ hitem
      · rw [List.getElem?_set_ne (Ne.symm hki)]
        refine (hitems k hk).beside h.grows fun heq => hki (toString_injective heq)

/-- An edit of the value of one key keeps the promise of its dict. -/
theorem keepsPromise_entry {r : List String} {d d' : DirtyPaths}
    {entries others : List (String × Value)} {key : String}
    (hgrows : d.GrowsAt d' (r ++ [key])) (hkey : IsSegment key)
    (hother : ∀ k, k ≠ key → Entries.get? others k = Entries.get? entries k)
    (htracks : ∀ before, Tracks d (r ++ [key]) before (Entries.get? entries key) →
      Tracks d' (r ++ [key]) before (Entries.get? others key)) :
    KeepsPromise r d (.dict entries) d' (.dict others) := by
  refine ⟨hgrows.above (List.prefix_append _ _), fun before ht => ?_⟩
  cases ht with
  | covered before now hcovered => exact .covered _ _ (hgrows.keeps.covered hcovered)
  | leaf hleaf _ => exact absurd hleaf id
  | @dict _ _ olds _ hkeys hsame =>
    refine .dict (fun k hk => ?_) fun k hk => ?_
    · by_cases heq : k = key
      · subst heq
        exact htracks _ (hkeys k hk)
      · rw [hother k heq]
        exact (hkeys k hk).beside hgrows heq
    · rw [hother k fun heq => hk (heq ▸ hkey)]
      exact hsame k hk

/-! ### Attributes -/

namespace Document

/-- From one document to the next, the promise is kept wherever the document stands. -/
def KeepsPromise (doc doc' : Document) : Prop :=
  ∀ d r before, Tracks d r before (some (.document doc)) →
    Tracks d r before (some (.document doc'))

theorem KeepsPromise.refl (doc : Document) : doc.KeepsPromise doc :=
  fun _ _ _ h => h

theorem KeepsPromise.trans {doc doc' doc'' : Document} (h : doc.KeepsPromise doc')
    (h' : doc'.KeepsPromise doc'') : doc.KeepsPromise doc'' :=
  fun d r before ht => h' d r before (h d r before ht)

/-- A change of one attribute, which keeps the promise of its document. -/
structure Touches (doc doc' : Document) (key : String) : Prop where
  type : doc'.type = doc.type
  raw : doc'.raw = doc.raw
  other : ∀ name, name ≠ key → Entries.get? doc'.values name = Entries.get? doc.values name
  grows : doc.dirty.GrowsAt doc'.dirty [key]
  keeps : doc.KeepsPromise doc'

theorem Touches.refl (doc : Document) (key : String) : doc.Touches doc key :=
  ⟨rfl, rfl, fun _ _ => rfl, .refl _ _, .refl doc⟩

/-- **A change of one attribute keeps the promise of its document** if it keeps the one of the
attribute. What the attribute counts as having had may be opened by the change. -/
theorem touches_of_attribute {doc doc' : Document} {key : String} (hkey : IsAttributeName key)
    (htype : doc'.type = doc.type) (hraw : doc'.raw = doc.raw)
    (hother : ∀ name, name ≠ key → Entries.get? doc'.values name = Entries.get? doc.values name)
    (hsome : (Entries.get? doc.values key).isSome → (Entries.get? doc'.values key).isSome)
    (hgrows : doc.dirty.GrowsAt doc'.dirty [key])
    (hmarked : doc'.dirty = doc.dirty ∨ (Entries.get? doc'.values key).isSome)
    (hattribute : ∀ o before, Opened doc.type key o before →
      Tracks doc.dirty [key] before (Entries.get? doc.values key) →
      ∃ before', Opened doc.type key o before' ∧
        Tracks doc'.dirty [key] before' (Entries.get? doc'.values key)) :
    doc.Touches doc' key := by
  refine ⟨htype, hraw, hother, hgrows, ?_⟩
  have hsomes : ∀ name, (Entries.get? doc.values name).isSome →
      (Entries.get? doc'.values name).isSome := by
    intro name h
    by_cases hname : name = key
    · subst hname
      exact hsome h
    · rwa [hother name hname]
  intro d r before ht
  cases ht with
  | covered before now hcovered => exact .covered _ _ hcovered
  | leaf hleaf _ => exact absurd hleaf id
  | @document _ _ old _ hnothing hsame hdefaults hmarks opened hopened hattributes hothers =>
    obtain ⟨before', hbefore', hnow⟩ := hattribute _ _ (hopened key hkey) (hattributes key hkey)
    refine .document hnothing (htype.trans hsame) hdefaults (fun m hm => ?_)
      (fun name => if name = key then before' else opened name) (fun name hname => ?_)
      (fun name hname => ?_) fun name hname => ?_
    · rcases hmarked with hsame | hmarked
      · rw [hsame] at hm
        obtain ⟨name, hname, hprefix, hvalue⟩ := hmarks m hm
        exact ⟨name, hname, hprefix, hsomes name hvalue⟩
      · rcases hgrows.new m hm with hm | hm
        · obtain ⟨name, hname, hprefix, hvalue⟩ := hmarks m hm
          exact ⟨name, hname, hprefix, hsomes name hvalue⟩
        · exact ⟨key, hkey, hm, hmarked⟩
    · rw [htype]
      by_cases heq : name = key
      · subst heq
        simpa using hbefore'
      · simpa [heq] using hopened name hname
    · by_cases heq : name = key
      · subst heq
        simpa using hnow
      · rw [hother name heq]
        simp only [heq, ↓reduceIte]
        exact Tracks.beside (r := []) (hattributes name hname) hgrows heq
    · rw [hother name fun heq => hname (heq ▸ hkey)]
      exact hothers name hname

/-- Assigning an attribute keeps the promise. -/
theorem touches_set {doc doc' : Document} {name : String} {v : Value}
    (hname : IsAttributeName (doc.type.attributeOf name)) (h : doc.set name v = .ok doc') :
    doc.Touches doc' (doc.type.attributeOf name) := by
  rcases set_cases h with rfl | rfl
  · exact .refl _ _
  · refine touches_of_attribute hname rfl rfl
      (fun other hother => Entries.get?_insertSorted_of_ne _ _ (Ne.symm hother))
      (fun _ => by simp [put]) ?_ (.inr (by simp [put])) fun o before hbefore _ => ?_
    · have hgrows := doc.dirty.growsAt_mark (doc.type.attributeOf name)
      rwa [dottedSegments_of_isSegment hname.2] at hgrows
    · have hcovered := doc.dirty.covered_mark_self hname.1
      rw [dottedSegments_of_isSegment hname.2] at hcovered
      exact ⟨before, hbefore, .covered _ _ hcovered⟩

/-! ### Visits -/

/-- Putting an empty list or dict in place of no value keeps the promise. -/
theorem touches_put_container {doc : Document} {key : String} (hkey : IsAttributeName key)
    (hmissing : Entries.get? doc.values key = none ∨ Entries.get? doc.values key = some .null)
    {container : Value} (hcontainer : container = .dict [] ∨ container = .list [] ∧
      ∃ f, doc.type.describe? key = some f ∧ (f.kind.isAny = true ∨ f.kind.isList = true)) :
    doc.Touches (doc.put key container) key := by
  refine touches_of_attribute hkey rfl rfl
    (fun other hother => Entries.get?_insertSorted_of_ne _ _ (Ne.symm hother))
    (fun _ => by simp [put]) (.refl _ _) (.inl rfl) fun o before hbefore ht => ?_
  have hput : Entries.get? (doc.put key container).values key = some container := by simp [put]
  have hdirty : (doc.put key container).dirty = doc.dirty := rfl
  rw [hput, hdirty]
  -- Unless the attribute is covered, it counts as having had no value, and nothing is recorded there.
  have hstart : doc.dirty.Covered [key] ∨
      doc.dirty.NothingAt [key] ∧ (before = none ∨ before = some .null) := by
    rcases hmissing with hnow | hnow <;> rw [hnow] at ht
    · cases ht with
      | covered _ _ h => exact .inl h
      | absent h => exact .inr ⟨h, .inl rfl⟩
    · cases ht with
      | covered _ _ h => exact .inl h
      | leaf _ h => exact .inr ⟨h, .inr rfl⟩
  rcases hstart with hcovered | ⟨hnothing, hbefore'⟩
  · exact ⟨before, hbefore, .covered _ _ hcovered⟩
  · have hsame : o = none ∨ o = some .null := by
      cases hbefore with
      | same => exact hbefore'
      | list hmissing _ _ => exact hmissing
      | dict hmissing => exact hmissing
    rcases hcontainer with rfl | ⟨rfl, f, hf, hkind⟩
    · refine ⟨some (.dict []), .dict hsame, .dict (fun k _ => ?_) fun _ _ => ⟨rfl, by simp⟩⟩
      exact .absent (hnothing.mono (fun m hm _ => hm) (List.prefix_append _ _))
    · exact ⟨some (.list []), .list hsame hf hkind,
        .list rfl (fun m hm hkm => absurd hkm (hnothing m hm)) (by simp)⟩

/-- Opening an attribute keeps the promise. -/
theorem OpenedAt.touches {doc doc' : Document} {key : String} (h : doc.OpenedAt key doc')
    (hkey : IsAttributeName key) : doc.Touches doc' key := by
  cases h with
  | same => exact .refl _ _
  | put hmissing hcontainer =>
    refine touches_put_container hkey hmissing ?_
    rcases hcontainer with ⟨rfl, hopens⟩ | ⟨rfl, -⟩
    · obtain ⟨f, hf, hkind⟩ := (Option.any_eq_true _ _).mp hopens
      exact .inr ⟨rfl, f, hf, by simpa using hkind⟩
    · exact .inl rfl

/-- A change of the value of an attribute, together with the record, keeps the promise of the
document if it keeps the one of the value. -/
theorem touches_inside {doc : Document} {key : String} (hkey : IsAttributeName key)
    {v v' : Value} {d' : DirtyPaths} (hv : Entries.get? doc.values key = some v)
    (h : DocumentMapper.KeepsPromise [key] doc.dirty v d' v') :
    doc.Touches
      { doc with values := Entries.modify doc.values key fun _ => v', dirty := d' } key := by
  have hself := Entries.get?_modify_self hv fun _ => v'
  refine touches_of_attribute hkey rfl rfl
    (fun name hname => Entries.get?_modify_of_ne doc.values (fun _ => v') hname)
    (fun _ => by simp [hself]) h.grows (.inr (by simp [hself]))
    fun o before hbefore ht => ⟨before, hbefore, ?_⟩
  rw [hv] at ht
  rw [hself]
  exact h.tracks before ht

end Document

/-- **The promise is closed under tracked edits** whose names are paths of one segment. -/
theorem editClosed_keepsPromise :
    EditClosed IsSegment IsAttributeName KeepsPromise Document.KeepsPromise where
  refl := .refl
  trans := .trans
  marked _ _ hpath := keepsPromise_mark hpath
  item hi h := keepsPromise_item hi h
  key d path _ _ key hkey hother := by
    have hgrows := d.growsAt_mark (path ++ "." ++ key)
    have hcovered := d.covered_mark_self (ne_empty_below path key)
    rw [dottedSegments_below path hkey] at hgrows hcovered
    exact keepsPromise_entry hgrows hkey hother fun _ _ => .covered _ _ hcovered
  entry {r d d' entries key v v'} hkey hv h := by
    rw [dottedSegments_of_isSegment hkey] at h
    refine keepsPromise_entry h.grows hkey
      (fun k hk => Entries.get?_modify_of_ne entries _ hk) fun before ht => ?_
    rw [hv] at ht
    rw [Entries.get?_modify_self hv]
    exact h.tracks before ht
  document r d _ _ h := ⟨.refl d r, fun before ht => h d r before ht⟩
  documentRefl := .refl
  documentTrans := .trans
  named hkey := hkey.1
  opened hkey h := (h.touches hkey).keeps
  inside hkey hv h := by
    rw [dottedSegments_of_isSegment hkey.2] at h
    exact (Document.touches_inside hkey hv h).keeps

/-! ### Visitors -/

/-- A visitor that leaves what can be reached by the operations of the views. -/
structure Visitor.Keeps {α : Type} (w : Visitor α) : Prop where
  lists : ∀ l : ListView, l.Edited (w.onList l).2
  dicts : ∀ d : DictView, d.Edited (w.onDict d).2
  documents : ∀ doc : Document, doc.KeepsPromise (w.onDocument doc).2

/-- The keys and attributes on the way of a visit are paths of one segment. -/
def Value.PlainAlong : List ViewStep → Value → Prop
  | .item i :: rest, .list items => ∀ v, items[i]? = some v → v.PlainAlong rest
  | .key name :: rest, .dict entries =>
    ∀ v, Entries.get? entries name = some v → IsSegment name ∧ v.PlainAlong rest
  | .key name :: rest, .document doc =>
    ∀ key, doc.attributeName name = .ok key → IsAttributeName key ∧
      ((Entries.get? (doc.withContainer key).values key).getD .null).PlainAlong rest
  | _, _ => True

/-- What a visit leaves keeps the promise of the value that it started with. -/
def Visited.Keeps {α : Type} (r : Visited α) (position : List String) (d : DirtyPaths)
    (v : Value) : Prop :=
  ∃ d', r.record = some d' ∧ KeepsPromise position d v d' r.value

/-- Names that are paths of one segment are covered. -/
theorem Value.PlainAlong.along {steps : List ViewStep} {v : Value} (h : v.PlainAlong steps) :
    v.Along IsSegment IsAttributeName steps := by
  fun_induction Value.PlainAlong steps v with
  | case1 i rest items ih => exact fun v hv => ih v (h v hv)
  | case2 name rest entries ih => exact fun v hv => ⟨(h v hv).1, ih v (h v hv).2⟩
  | case3 name rest doc ih => exact fun key hkey => ⟨(h key hkey).1, ih key (h key hkey).2⟩
  | case4 => simp_all [Value.Along]

/-- **A visit keeps the promise of the value that it starts with.** -/
theorem Value.visit_keeps {α : Type} {w : Visitor α} (hw : w.Keeps) (steps : List ViewStep)
    (v : Value) (d : DirtyPaths) {path : String} (hpath : path ≠ "") (hplain : v.PlainAlong steps) :
    (Value.visit w steps v (some d) path).Keeps (dottedSegments path) d v :=
  editClosed_keepsPromise.visit_related hw.lists (fun l => (hw.dicts l).changes) hw.documents
    hplain.along rfl hpath

/-- Visiting an attribute keeps the promise of the document if the visit keeps the one of its
value. -/
theorem Document.touches_afterVisit {α : Type} {doc : Document} {key : String}
    (hkey : IsAttributeName key) {w : Visitor α} {steps : List ViewStep}
    (h : (Value.visit w steps ((Entries.get? doc.values key).getD .null) (some doc.dirty) key).Keeps
      [key] doc.dirty ((Entries.get? doc.values key).getD .null)) :
    doc.Touches (doc.afterVisit key
      (Value.visit w steps ((Entries.get? doc.values key).getD .null) (some doc.dirty) key)) key := by
  obtain ⟨d', hrecord, hkeeps⟩ := h
  cases hv : Entries.get? doc.values key with
  | none =>
    rw [Option.getD_none, afterVisit_of_missing hv]
    exact .refl doc key
  | some v =>
    rw [hv, Option.getD_some] at hrecord hkeeps
    rw [Option.getD_some, afterVisit, hrecord]
    exact touches_inside hkey hv hkeeps

/-! ### Sequences of edits -/

/-- **Tracked edits**: assignments of attributes, and visits of attributes in which lists, dicts and
embedded documents are changed by the operations of their views. The names that they use are paths
of one segment, and an attribute that is to be kept is not touched. -/
inductive Document.Edited : Option String → Document → Document → Prop
  | refl (kept : Option String) (doc : Document) : Edited kept doc doc
  | set {kept : Option String} {doc doc₁ doc₂ : Document} {name : String} {v : Value}
      (h : Edited kept doc doc₁) (hname : IsAttributeName (doc₁.type.attributeOf name))
      (hkept : kept ≠ some (doc₁.type.attributeOf name)) (hset : doc₁.set name v = .ok doc₂) :
      Edited kept doc doc₂
  | unset {kept : Option String} {doc doc₁ doc₂ : Document} {name : String}
      (h : Edited kept doc doc₁) (hname : IsAttributeName (doc₁.type.attributeOf name))
      (hkept : kept ≠ some (doc₁.type.attributeOf name)) (hunset : doc₁.unset name = .ok doc₂) :
      Edited kept doc doc₂
  | visit {kept : Option String} {doc doc₁ doc₂ : Document} {how : Entrance} {name key : String}
      {α : Type} {w : Visitor α} {steps : List ViewStep} (h : Edited kept doc doc₁)
      (henter : doc₁.enter how name = .ok (key, doc₂)) (hkey : IsAttributeName key)
      (hkept : kept ≠ some key)
      (hplain : ((Entries.get? doc₂.values key).getD .null).PlainAlong steps)
      (hlists : ∀ l : ListView, l.Edited (w.onList l).2)
      (hdicts : ∀ d : DictView, d.Edited (w.onDict d).2)
      (hdocuments : ∀ e : Document, Edited none e (w.onDocument e).2) :
      Edited kept doc (doc₂.visit key steps w).2

namespace Document

/-- Entering an attribute keeps the promise. -/
theorem touches_enter {doc doc' : Document} {how : Entrance} {name key : String}
    (h : doc.enter how name = .ok (key, doc')) (hkey : IsAttributeName key) :
    doc.Touches doc' key :=
  (openedAt_enter h).2.touches hkey

/-- A visit of an attribute keeps the promise if its visitor does. -/
theorem touches_visit {α : Type} {doc : Document} {key : String} (hkey : IsAttributeName key)
    {w : Visitor α} (hw : w.Keeps) {steps : List ViewStep}
    (hplain : ((Entries.get? doc.values key).getD .null).PlainAlong steps) :
    doc.Touches (doc.visit key steps w).2 key := by
  have hvisit := Value.visit_keeps hw steps _ doc.dirty hkey.1 hplain
  rw [dottedSegments_of_isSegment hkey.2] at hvisit
  exact touches_afterVisit hkey hvisit

/-- **Tracked edits keep the promise of the document.** -/
theorem Edited.keeps {kept : Option String} {doc doc' : Document} (h : Edited kept doc doc') :
    doc.KeepsPromise doc' := by
  induction h with
  | refl kept doc => exact .refl doc
  | set _ hname _ hset ih => exact ih.trans (touches_set hname hset).keeps
  | unset _ hname _ hunset ih => exact ih.trans (touches_set hname hunset).keeps
  | visit _ henter hkey _ hplain hlists hdicts _ ih ihdocuments =>
    exact (ih.trans (touches_enter henter hkey).keeps).trans
      (touches_visit hkey ⟨hlists, hdicts, ihdocuments⟩ hplain).keeps

/-- What tracked edits leave alone: the type, the stored form, and the attribute to be kept with
what is recorded there. -/
structure Leaves (kept : Option String) (doc doc' : Document) : Prop where
  type : doc'.type = doc.type
  raw : doc'.raw = doc.raw
  value : ∀ key, kept = some key → Entries.get? doc'.values key = Entries.get? doc.values key
  marks : ∀ key, kept = some key → ∀ m ∈ doc'.dirty.segments, [key] <+: m → m ∈ doc.dirty.segments

theorem Leaves.touches {kept : Option String} {doc doc' doc'' : Document} {key : String}
    (h : Leaves kept doc doc') (ht : doc'.Touches doc'' key) (hkept : kept ≠ some key) :
    Leaves kept doc doc'' := by
  have hne : ∀ other, kept = some other → other ≠ key := by
    rintro other hother rfl
    exact hkept hother
  refine ⟨ht.type.trans h.type, ht.raw.trans h.raw, fun other hother => ?_,
    fun other hother m hm hprefix => ?_⟩
  · rw [ht.other other (hne other hother), h.value other hother]
  · rcases ht.grows.new m hm with hm | hm
    · exact h.marks other hother m hm hprefix
    · exact absurd (eq_of_prefix_concat (r := []) hprefix hm) (hne other hother)

/-- **Tracked edits leave the attribute to be kept alone.** -/
theorem Edited.leaves {kept : Option String} {doc doc' : Document} (h : Edited kept doc doc') :
    Leaves kept doc doc' := by
  induction h with
  | refl kept doc => exact ⟨rfl, rfl, fun _ _ => rfl, fun _ _ _ hm _ => hm⟩
  | set _ hname hkept hset ih => exact ih.touches (touches_set hname hset) hkept
  | unset _ hname hkept hunset ih => exact ih.touches (touches_set hname hunset) hkept
  | visit _ henter hkey hkept hplain hlists hdicts hdocuments ih _ =>
    have hw : Visitor.Keeps _ := ⟨hlists, hdicts, fun e => (hdocuments e).keeps⟩
    exact (ih.touches (touches_enter henter hkey) hkept).touches (touches_visit hkey hw hplain) hkept

end Document

end DocumentMapper
