import DocumentMapper.Proofs.SaveStages
import DocumentMapper.Proofs.TrackedEdits

/-!
# Tracked calls follow the document

Any sequence of the calls that record what they do, in documents of any shape: assigning an
attribute, and visiting an attribute to call what the views of lists, dicts and documents offer. A
call that is refused leaves the document as it is. Attributes have names that are not empty; keys of
dicts may be anything, also paths of several segments.

After such calls every value is still followed from what stood at its position, and no changed path
that was reported before has been lost: it or one above it is reported now.

## Main results

* `editClosed_carries`: carrying over is closed under edits;
* `Value.carries_visit`: what a visit carries over from the value that it starts with;
* `Document.Worked.carries`: what any sequence of calls carries over.
-/

namespace DocumentMapper

open Text DirtyPaths

/-! ### What an edit of a value carries over -/

/-- A path below a position is covered, or it or one above it is reported from the value there. -/
def Remains (d : DirtyPaths) (r : List String) (now : Option Value) (q : List String) : Prop :=
  d.Covered (r ++ q) ∨ ∃ v p, now = some v ∧ p <+: q ∧ Reported d r v p

theorem Remains.covered {d : DirtyPaths} {r : List String} (h : d.Covered r) (now : Option Value)
    (q : List String) : Remains d r now q :=
  .inl (h.below (List.prefix_append r q))

theorem Remains.below {d : DirtyPaths} {r : List String} {now : Option Value} {p q : List String}
    (h : Remains d r now p) (hpq : p <+: q) : Remains d r now q := by
  rcases h with h | ⟨v, p', hv, hbegins, hp'⟩
  · exact .inl (h.below ((List.prefix_append_right_inj r).mpr hpq))
  · exact .inr ⟨v, p', hv, hbegins.trans hpq, hp'⟩

/-- A reported path remains when more is marked. -/
theorem Reported.mono {d d' : DirtyPaths} {r : List String} {v : Value} {q : List String}
    (h : Reported d r v q) (hkeeps : d.Keeps d') : d'.Covered (r ++ q) ∨ Reported d' r v q := by
  induction h with
  | item hv _ ih =>
    rcases ih hkeeps with h | h
    · exact .inl (by simpa using h)
    · exact .inr (.item hv h)
  | entry hv _ ih =>
    rcases ih hkeeps with h | h
    · exact .inl (by simpa using h)
    · exact .inr (.entry hv h)
  | @own _ r _ q _ h =>
    by_cases hcovered : d'.Covered r
    · exact .inl (hcovered.below (List.prefix_append r q))
    · exact .inr (.own hcovered h)
  | @inside _ r _ _ _ _ _ hreference hv h _ =>
    by_cases hcovered : d'.Covered r
    · exact .inl (hcovered.below (List.prefix_append r _))
    · exact .inr (.inside hcovered hreference hv h)

theorem Reported.remains {d d' : DirtyPaths} {r : List String} {v : Value} {q : List String}
    (h : Reported d r v q) (hkeeps : d.Keeps d') : Remains d' r (some v) q :=
  (h.mono hkeeps).imp id fun h => ⟨v, q, rfl, List.prefix_refl q, h⟩

/-- From one record and value to the next, everything followed is followed on, every reported path
remains, and nothing is recorded elsewhere. -/
structure Carries (r : List String) (d : DirtyPaths) (v : Value) (d' : DirtyPaths) (v' : Value) :
    Prop where
  grows : d.GrowsAt d' r
  followed : ∀ seat before, Followed d r seat before (some v) → Followed d' r seat before (some v')
  remains : ∀ q, Reported d r v q → Remains d' r (some v') q

theorem Carries.refl (r : List String) (d : DirtyPaths) (v : Value) : Carries r d v d v :=
  ⟨.refl d r, fun _ _ h => h, fun _ h => h.remains (.refl d)⟩

theorem Carries.trans {r : List String} {d d' d'' : DirtyPaths} {v v' v'' : Value}
    (h : Carries r d v d' v') (h' : Carries r d' v' d'' v'') : Carries r d v d'' v'' := by
  refine ⟨h.grows.trans h'.grows, fun seat before hv => h'.followed _ _ (h.followed _ _ hv), ?_⟩
  intro q hq
  rcases h.remains q hq with hcovered | ⟨w, p, hw, hbegins, hp⟩
  · exact .inl (h'.grows.keeps.covered hcovered)
  · obtain rfl := Option.some.inj hw
    exact (h'.remains p hp).below hbegins

/-- Marking the position carries everything over, whatever the value becomes. -/
theorem carries_mark {d : DirtyPaths} {path : String} (hpath : path ≠ "") (v v' : Value) :
    Carries (dottedSegments path) d v (d.mark path) v' :=
  ⟨d.growsAt_mark path, fun _ _ _ => .covered _ _ (d.covered_mark_self hpath),
    fun q _ => .covered (d.covered_mark_self hpath) _ q⟩

/-- An edit of one item carries its list over. -/
theorem carries_item {r : List String} {d d' : DirtyPaths} {items : List Value} {i : Nat}
    {v v' : Value} (hi : items[i]? = some v) (h : Carries (r ++ [toString i]) d v d' v') :
    Carries r d (.list items) d' (.list (items.set i v')) := by
  have hlt : i < items.length := (List.getElem?_eq_some_iff.mp hi).1
  have hself : (items.set i v')[i]? = some v' := List.getElem?_set_self hlt
  have hother : ∀ k, k ≠ i → (items.set i v')[k]? = items[k]? := fun k hk =>
    List.getElem?_set_ne (Ne.symm hk)
  refine ⟨h.grows.above (List.prefix_append _ _), fun seat before hv => ?_, fun q hq => ?_⟩
  · cases hv with
    | covered before now hcovered => exact .covered _ _ (h.grows.keeps.covered hcovered)
    | leaf hleaf => exact absurd hleaf id
    | list hstart hitems =>
      refine .list hstart fun k => ?_
      by_cases hk : k = i
      · subst hk
        rw [hself]
        have hitem := hitems k
        rw [hi] at hitem
        exact h.followed _ _ hitem
      · rw [hother k hk]
        exact (hitems k).mono h.grows.keeps
  · cases hq with
    | @item _ _ _ k w p hw hp =>
      by_cases hk : k = i
      · subst hk
        obtain rfl : v = w := Option.some.inj (hi.symm.trans hw)
        rcases h.remains p hp with hcovered | ⟨u, p', hu, hbegins, hp'⟩
        · exact .inl (by simpa using hcovered)
        · obtain rfl := Option.some.inj hu
          exact .inr ⟨_, _, rfl, (List.prefix_append_right_inj [toString k]).mpr hbegins,
            .item hself hp'⟩
      · rcases hp.mono h.grows.keeps with hcovered | hp'
        · exact .inl (by simpa using hcovered)
        · exact .inr ⟨_, _, rfl, List.prefix_refl _, .item ((hother k hk).trans hw) hp'⟩

/-- An edit of the value of one key carries its dict over. -/
theorem carries_entry {r : List String} {d d' : DirtyPaths}
    {entries others : List (String × Value)} {key : String}
    (hgrows : d.GrowsAt d' (r ++ dottedSegments key))
    (hother : ∀ k, k ≠ key → Entries.get? others k = Entries.get? entries k)
    (hfollowed : ∀ seat before,
      Followed d (r ++ dottedSegments key) seat before (Entries.get? entries key) →
      Followed d' (r ++ dottedSegments key) seat before (Entries.get? others key))
    (hremains : ∀ v q, Entries.get? entries key = some v →
      Reported d (r ++ dottedSegments key) v q →
      Remains d' (r ++ dottedSegments key) (Entries.get? others key) q) :
    Carries r d (.dict entries) d' (.dict others) := by
  refine ⟨hgrows.above (List.prefix_append _ _), fun seat before hv => ?_, fun q hq => ?_⟩
  · cases hv with
    | covered before now hcovered => exact .covered _ _ (hgrows.keeps.covered hcovered)
    | leaf hleaf => exact absurd hleaf id
    | dict hstart hkeys =>
      refine .dict hstart fun k => ?_
      by_cases hk : k = key
      · subst hk
        exact hfollowed _ _ (hkeys k)
      · rw [hother k hk]
        exact (hkeys k).mono hgrows.keeps
  · cases hq with
    | @entry _ _ _ k w p hw hp =>
      by_cases hk : k = key
      · subst hk
        rcases hremains w p hw hp with hcovered | ⟨u, p', hu, hbegins, hp'⟩
        · exact .inl (by simpa using hcovered)
        · exact .inr ⟨_, _, rfl, (List.prefix_append_right_inj _).mpr hbegins, .entry hu hp'⟩
      · rcases hp.mono hgrows.keeps with hcovered | hp'
        · exact .inl (by simpa using hcovered)
        · exact .inr ⟨_, _, rfl, List.prefix_refl _, .entry ((hother k hk).trans hw) hp'⟩

/-! ### Attributes -/

namespace Document

/-- What calls carry over from one document to the next: the type, that the empty path is not
recorded, that the document is followed wherever it stands, and the paths that it reports. -/
structure Carries (doc doc' : Document) : Prop where
  type : doc'.type = doc.type
  unnamed : [""] ∈ doc'.dirty.segments → [""] ∈ doc.dirty.segments
  followed : ∀ d r seat before, Followed d r seat before (some (.document doc)) →
    Followed d r seat before (some (.document doc'))
  reported : ∀ q, Reported .empty [] (.document doc) q →
    ∃ p, p <+: q ∧ Reported .empty [] (.document doc') p

theorem Carries.refl (doc : Document) : doc.Carries doc :=
  ⟨rfl, id, fun _ _ _ _ h => h, fun q h => ⟨q, List.prefix_refl q, h⟩⟩

theorem Carries.trans {doc doc' doc'' : Document} (h : doc.Carries doc') (h' : doc'.Carries doc'') :
    doc.Carries doc'' := by
  refine ⟨h'.type.trans h.type, fun hm => h.unnamed (h'.unnamed hm),
    fun d r seat before hv => h'.followed d r seat before (h.followed d r seat before hv),
    fun q hq => ?_⟩
  obtain ⟨p, hpq, hp⟩ := h.reported q hq
  obtain ⟨p', hpp, hp'⟩ := h'.reported p hp
  exact ⟨p', hpp.trans hpq, hp'⟩

/-- A document that is carried over is so at every position, together with its record. -/
theorem Carries.at {doc doc' : Document} (h : doc.Carries doc') (r : List String) (d : DirtyPaths) :
    DocumentMapper.Carries r d (.document doc) d (.document doc') := by
  refine ⟨.refl d r, h.followed d r, fun q hq => ?_⟩
  obtain ⟨huncovered, hq⟩ := reported_document_iff.mp hq
  obtain ⟨p, hpq, hp⟩ := h.reported q hq
  exact .inr ⟨_, p, rfl, hpq, reported_document_iff.mpr ⟨huncovered, hp⟩⟩

/-- **A change of one attribute carries the document over** if it carries the attribute over. -/
theorem carries_of_attribute {doc doc' : Document} {key : String} (hkey : key ≠ "")
    (htype : doc'.type = doc.type)
    (hother : ∀ name, name ≠ key → Entries.get? doc'.values name = Entries.get? doc.values name)
    (hkept : (Entries.get? doc.values key).isSome → (Entries.get? doc'.values key).isSome)
    (hgrows : doc.dirty.GrowsAt doc'.dirty (dottedSegments key))
    (hfollowed : ∀ before, Followed doc.dirty (dottedSegments key) (doc.type.seat key) before
        (Entries.get? doc.values key) →
      Followed doc'.dirty (dottedSegments key) (doc.type.seat key) before
        (Entries.get? doc'.values key))
    (hremains : ∀ v q, Entries.get? doc.values key = some v →
      Reported doc.dirty (dottedSegments key) v q →
      Remains doc'.dirty (dottedSegments key) (Entries.get? doc'.values key) q) :
    doc.Carries doc' := by
  refine ⟨htype, fun hm => ?_, fun d r seat before h => ?_, fun q hq => ?_⟩
  · -- What is new stands at the attribute, whose name is not empty.
    rcases hgrows.new _ hm with hm | hbegins
    · exact hm
    · refine absurd ?_ hkey
      have hempty : dottedSegments key <+: dottedSegments "" := hbegins
      have habove := eq_or_isAbove_iff.mpr hempty
      rw [Bool.or_eq_true, beq_iff_eq, isAbove_iff] at habove
      rcases habove with h | ⟨rest, hne, hrest⟩
      · exact h
      · have hlength := congrArg List.length hrest
        have hone : (dottedSegments "").length = 1 := rfl
        have hpos := List.length_pos_iff.mpr (dottedSegments_ne_nil key)
        have hmore : 0 < rest.length := List.length_pos_iff.mpr hne
        rw [List.length_append] at hlength
        omega
  · cases h with
    | covered before now hcovered => exact .covered _ _ hcovered
    | leaf hleaf => exact absurd hleaf id
    | @document _ _ _ old _ hsame hattributes hvalues =>
      refine .document (htype.trans hsame) (fun name hname => ?_) fun name => ?_
      · have hnow := hattributes name hname
        by_cases heq : name = key
        · subst heq
          exact hkept hnow
        · rwa [hother name heq]
      · rw [htype]
        by_cases heq : name = key
        · subst heq
          exact hfollowed _ (hvalues name)
        · rw [hother name heq]
          exact (hvalues name).mono hgrows.keeps
  · have hfree : ¬ DirtyPaths.empty.Covered [] := DirtyPaths.not_covered_empty []
    cases hq with
    | own _ hm =>
      obtain ⟨p, hp, hbegins⟩ := hgrows.keeps q hm
      exact ⟨p, hbegins, .own hfree hp⟩
    | @inside _ _ _ name v q _ hreference hv h =>
      rw [← htype] at hreference
      have hremaining : Remains doc'.dirty (dottedSegments name) (Entries.get? doc'.values name) q := by
        by_cases heq : name = key
        · subst heq
          exact hremains v q hv h
        · rw [hother name heq, hv]
          exact h.remains hgrows.keeps
      rcases hremaining with ⟨p, hp, hbegins⟩ | ⟨w, p, hw, hbegins, hp⟩
      · exact ⟨p, hbegins, .own hfree hp⟩
      · exact ⟨_, (List.prefix_append_right_inj _).mpr hbegins, .inside hfree hreference hw hp⟩

/-- Assigning an attribute carries the document over. -/
theorem carries_set {doc doc' : Document} {name : String} {v : Value}
    (hname : doc.type.attributeOf name ≠ "") (h : doc.set name v = .ok doc') :
    doc.Carries doc' := by
  rcases set_cases h with rfl | rfl
  · exact .refl _
  · have hcovered := doc.dirty.covered_mark_self hname
    exact carries_of_attribute hname rfl
      (fun other hother => Entries.get?_insertSorted_of_ne _ _ (Ne.symm hother))
      (fun _ => by simp [put]) (doc.dirty.growsAt_mark _) (fun _ _ => .covered _ _ hcovered)
      fun _ q _ _ => .covered hcovered _ q

/-- Opening an attribute carries the document over. -/
theorem OpenedAt.carries {doc doc' : Document} {key : String} (h : doc.OpenedAt key doc')
    (hkey : key ≠ "") : doc.Carries doc' := by
  cases h with
  | same => exact .refl _
  | @put container hmissing hcontainer =>
    have hput : Entries.get? (doc.put key container).values key = some container := by
      simp [Document.put]
    refine carries_of_attribute hkey rfl
      (fun other hother => Entries.get?_insertSorted_of_ne _ _ (Ne.symm hother))
      (fun _ => by rw [hput]; rfl) (.refl _ _) (fun before h => ?_) fun v q hv hq => ?_
    · have hdirty : (doc.put key container).dirty = doc.dirty := rfl
      rw [hput, hdirty]
      have hstart : doc.dirty.Covered (dottedSegments key) ∨
          before = none ∨ before = some .null := by
        rcases hmissing with hnow | hnow <;> rw [hnow] at h
        · cases h with
          | covered _ _ h => exact .inl h
          | absent => exact .inr (.inl rfl)
        · cases h with
          | covered _ _ h => exact .inl h
          | leaf => exact .inr (.inr rfl)
      rcases hstart with hcovered | hbefore
      · exact .covered _ _ hcovered
      · rcases hcontainer with ⟨rfl, hopens⟩ | ⟨rfl, hopens⟩
        · exact .list (.list hbefore hopens) fun i => .absent _ _ _
        · exact .dict (.dict hbefore hopens) fun key => .absent _ _ _
    · rcases hmissing with hnow | hnow <;> rw [hnow] at hv <;> cases hv
      cases hq

/-- A change of the value of an attribute, together with the record, carries the document over if
it carries the value over. -/
theorem carries_inside {doc : Document} {key : String} (hkey : key ≠ "") {v v' : Value}
    {d' : DirtyPaths} (hv : Entries.get? doc.values key = some v)
    (h : DocumentMapper.Carries (dottedSegments key) doc.dirty v d' v') :
    doc.Carries { doc with values := Entries.modify doc.values key fun _ => v', dirty := d' } := by
  have hself := Entries.get?_modify_self hv fun _ => v'
  refine carries_of_attribute hkey rfl
    (fun name hname => Entries.get?_modify_of_ne doc.values (fun _ => v') hname)
    (fun _ => by simp [hself]) h.grows (fun before hfollowed => ?_) fun u q hu hq => ?_
  · rw [hv] at hfollowed
    rw [hself]
    exact h.followed _ before hfollowed
  · obtain rfl : v = u := Option.some.inj (hv.symm.trans hu)
    rw [hself]
    exact h.remains q hq

end Document

/-- **Carrying over is closed under tracked edits**, whatever the keys are. -/
theorem editClosed_carries :
    EditClosed (fun _ => True) (· ≠ "") Carries Document.Carries where
  refl := .refl
  trans := .trans
  marked _ _ hpath := carries_mark hpath
  item hi h := carries_item hi h
  key d path _ _ key _ hother := by
    have hgrows := d.growsAt_mark (path ++ "." ++ key)
    have hcovered := d.covered_mark_self (ne_empty_below path key)
    rw [dottedSegments_append] at hgrows hcovered
    exact carries_entry hgrows hother (fun _ _ _ => .covered _ _ hcovered)
      fun _ q _ _ => .covered hcovered _ q
  entry {r d d' entries key v v'} _ hv h := by
    have hself := Entries.get?_modify_self hv fun _ => v'
    refine carries_entry h.grows (fun k hk => Entries.get?_modify_of_ne entries _ hk) ?_ ?_
    · intro seat before hfollowed
      rw [hv] at hfollowed
      rw [hself]
      exact h.followed seat before hfollowed
    · intro u q hu hq
      obtain rfl : v = u := Option.some.inj (hv.symm.trans hu)
      rw [hself]
      exact h.remains q hq
  document r d _ _ h := h.at r d
  documentRefl := .refl
  documentTrans := .trans
  named hkey := hkey
  opened hkey h := h.carries hkey
  inside hkey hv h := Document.carries_inside hkey hv h

/-! ### Visits -/

/-- A visitor that leaves what calls of the views can reach. -/
structure Visitor.Carries {α : Type} (w : Visitor α) : Prop where
  lists : ∀ l : ListView, l.Edited (w.onList l).2
  dicts : ∀ d : DictView, d.Called (w.onDict d).2
  documents : ∀ doc : Document, doc.Carries (w.onDocument doc).2

/-- The attributes on the way of a visit have names that are not empty. -/
def Value.NamedAlong : List ViewStep → Value → Prop
  | .item i :: rest, .list items => ∀ v, items[i]? = some v → v.NamedAlong rest
  | .key name :: rest, .dict entries =>
    ∀ v, Entries.get? entries name = some v → v.NamedAlong rest
  | .key name :: rest, .document doc =>
    ∀ key, doc.attributeName name = .ok key → key ≠ "" ∧
      ((Entries.get? (doc.withContainer key).values key).getD .null).NamedAlong rest
  | _, _ => True

/-- What a visit leaves carries over the value that it started with. -/
def Visited.Carries {α : Type} (r : Visited α) (position : List String) (d : DirtyPaths)
    (v : Value) : Prop :=
  ∃ d', r.record = some d' ∧ DocumentMapper.Carries position d v d' r.value

/-- Names that are not empty are covered, and keys are whatever they are. -/
theorem Value.NamedAlong.along {steps : List ViewStep} {v : Value} (h : v.NamedAlong steps) :
    v.Along (fun _ => True) (· ≠ "") steps := by
  fun_induction Value.NamedAlong steps v with
  | case1 i rest items ih => exact fun v hv => ih v (h v hv)
  | case2 name rest entries ih => exact fun v hv => ⟨trivial, ih v (h v hv)⟩
  | case3 name rest doc ih => exact fun key hkey => ⟨(h key hkey).1, ih key (h key hkey).2⟩
  | case4 => simp_all [Value.Along]

/-- **A visit carries over the value that it starts with.** -/
theorem Value.carries_visit {α : Type} {w : Visitor α} (hw : w.Carries) (steps : List ViewStep)
    (v : Value) (d : DirtyPaths) {path : String} (hpath : path ≠ "") (hnamed : v.NamedAlong steps) :
    (Value.visit w steps v (some d) path).Carries (dottedSegments path) d v :=
  editClosed_carries.visit_related hw.lists (fun l => (hw.dicts l).changes) hw.documents
    hnamed.along rfl hpath

/-! ### Sequences of calls -/

namespace Document

/-- The document after the visit of an attribute, which may be refused. -/
def viewed {α : Type} (doc : Document) (how : Entrance) (name : String) (steps : List ViewStep)
    (w : Visitor α) : Document :=
  match doc.enter how name with
  | .ok (key, opened) => (opened.visit key steps w).2
  | .error _ => doc

/-- The attributes that a visit of an opened attribute passes have names that are not empty. -/
def NamedAlong (doc : Document) (how : Entrance) (name : String) (steps : List ViewStep) : Prop :=
  ∀ key opened, doc.enter how name = .ok (key, opened) →
    ((Entries.get? opened.values key).getD .null).NamedAlong steps

/-- **Tracked calls**: assignments of attributes, of null where they are unset, and visits of
attributes in which any calls are made on the views of lists, dicts and embedded documents. -/
inductive Worked : Document → Document → Prop
  | refl (doc : Document) : Worked doc doc
  | assign {doc doc' : Document} (h : Worked doc doc') {name : String}
      (hname : doc'.type.attributeOf name ≠ "") (v : Value) : Worked doc (doc'.assign [(name, v)])
  | view {doc doc' : Document} (h : Worked doc doc') {how : Entrance} {name : String}
      (hname : doc'.type.attributeOf name ≠ "") {α : Type} {w : Visitor α} {steps : List ViewStep}
      (hsteps : doc'.NamedAlong how name steps)
      (hlists : ∀ l : ListView, l.Edited (w.onList l).2)
      (hdicts : ∀ d : DictView, d.Called (w.onDict d).2)
      (hdocuments : ∀ e : Document, Worked e (w.onDocument e).2) :
      Worked doc (doc'.viewed how name steps w)

/-- An assignment carries the document over, whether it is accepted or not. -/
theorem carries_assign {doc : Document} {name : String}
    (hname : doc.type.attributeOf name ≠ "") (v : Value) : doc.Carries (doc.assign [(name, v)]) := by
  simp only [assign, List.foldl_cons, List.foldl_nil]
  cases hset : doc.set name v with
  | error cause => exact .refl doc
  | ok doc' => exact carries_set hname hset

/-- A visit carries the document over, whether it is accepted or not. -/
theorem carries_viewed {α : Type} {doc : Document} {how : Entrance} {name : String}
    (hname : doc.type.attributeOf name ≠ "") {w : Visitor α} (hw : w.Carries)
    {steps : List ViewStep} (hsteps : doc.NamedAlong how name steps) :
    doc.Carries (doc.viewed how name steps w) := by
  unfold viewed
  split
  · rename_i key opened henter
    obtain ⟨rfl, hopened⟩ := openedAt_enter henter
    have hvisit := Value.carries_visit hw steps _ opened.dirty hname (hsteps _ opened henter)
    exact (hopened.carries hname).trans (editClosed_carries.afterVisit_related hname rfl hvisit)
  · exact .refl doc

/-- **Any sequence of tracked calls carries the document over.** -/
theorem Worked.carries {doc doc' : Document} (h : Worked doc doc') : doc.Carries doc' := by
  induction h with
  | refl doc => exact .refl doc
  | assign _ hname v ih => exact ih.trans (carries_assign hname v)
  | view _ hname hsteps hlists hdicts _ ih ihdocuments =>
    exact ih.trans (carries_viewed hname ⟨hlists, hdicts, ihdocuments⟩ hsteps)

end Document

end DocumentMapper
