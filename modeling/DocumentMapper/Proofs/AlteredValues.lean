import DocumentMapper.Proofs.FollowedEdits

/-!
# What tracked edits alter

`Altered` says what tracked edits can make of a value and of the record of the document that it
belongs to: they mark a position and put anything there, go down to a part, or change an attribute
of an embedded document together with the record of that document. Every visit and every sequence of
edits is made of such steps, so that an invariant of both is proved step by step.

## Main results

* `Altered.grows`: nothing is marked elsewhere;
* `editClosed_altered`: alterations are closed under edits;
* `Value.altered_visit`, `Document.Edited.altered`: tracked edits are made of alterations.
-/

namespace DocumentMapper

open Text DirtyPaths

/-! ### Alterations -/

/-- From a record and a value at a position to others, by tracked edits of the value. -/
inductive Altered : List String → DirtyPaths → Value → DirtyPaths → Value → Prop
  | refl (r : List String) (d : DirtyPaths) (v : Value) : Altered r d v d v
  | trans {r : List String} {d d' d'' : DirtyPaths} {v v' v'' : Value} (h : Altered r d v d' v')
      (h' : Altered r d' v' d'' v'') : Altered r d v d'' v''
  /-- Where the position is marked, anything may take the place of the value. -/
  | marked (d : DirtyPaths) {path : String} (hpath : path ≠ "") (v v' : Value) :
      Altered (dottedSegments path) d v (d.mark path) v'
  | item {r : List String} {d d' : DirtyPaths} {items : List Value} {i : Nat} {v v' : Value}
      (hv : items[i]? = some v) (h : Altered (r ++ [toString i]) d v d' v') :
      Altered r d (.list items) d' (.list (items.set i v'))
  /-- A key is marked, and its value put or removed. -/
  | key (d : DirtyPaths) (path : String) {entries others : List (String × Value)} {key : String}
      (hkey : IsSegment key)
      (hother : ∀ k, k ≠ key → Entries.get? others k = Entries.get? entries k) :
      Altered (dottedSegments path) d (.dict entries) (d.mark (path ++ "." ++ key)) (.dict others)
  | entry {r : List String} {d d' : DirtyPaths} {entries others : List (String × Value)}
      {key : String} {v v' : Value} (hkey : IsSegment key)
      (hother : ∀ k, k ≠ key → Entries.get? others k = Entries.get? entries k)
      (hv : Entries.get? entries key = some v) (hv' : Entries.get? others key = some v')
      (h : Altered (r ++ [key]) d v d' v') : Altered r d (.dict entries) d' (.dict others)
  /-- An attribute of a document is marked and put. -/
  | assigned (r : List String) (d : DirtyPaths) (doc : Document) {key : String}
      (hkey : IsAttributeName key) (v : Value) :
      Altered r d (.document doc) d (.document ((doc.mark key).put key v))
  /-- An attribute without value is opened. -/
  | opened (r : List String) (d : DirtyPaths) {doc : Document} {key : String} {container : Value}
      (hkey : IsAttributeName key)
      (hmissing : Entries.get? doc.values key = none ∨ Entries.get? doc.values key = some .null)
      (hcontainer : container = .list [] ∨ container = .dict []) :
      Altered r d (.document doc) d (.document (doc.put key container))
  | inside (r : List String) (d : DirtyPaths) {doc doc' : Document} {key : String} {v v' : Value}
      (hkey : IsAttributeName key)
      (hother : ∀ name, name ≠ key →
        Entries.get? doc'.values name = Entries.get? doc.values name)
      (hv : Entries.get? doc.values key = some v) (hv' : Entries.get? doc'.values key = some v')
      (h : Altered [key] doc.dirty v doc'.dirty v') :
      Altered r d (.document doc) d (.document doc')

/-- Alterations at a position mark nothing elsewhere. -/
theorem Altered.grows {r : List String} {d d' : DirtyPaths} {v v' : Value}
    (h : Altered r d v d' v') : d.GrowsAt d' r := by
  induction h with
  | refl r d v => exact .refl d r
  | trans _ _ ih ih' => exact ih.trans ih'
  | marked d _ _ _ => exact d.growsAt_mark _
  | item _ _ ih => exact ih.above (List.prefix_append _ _)
  | @key d path _ _ key hkey _ =>
    have hgrows := d.growsAt_mark (path ++ "." ++ key)
    rw [dottedSegments_below path hkey] at hgrows
    exact hgrows.above (List.prefix_append _ _)
  | entry _ _ _ _ _ ih => exact ih.above (List.prefix_append _ _)
  | assigned r d _ _ _ => exact .refl d r
  | opened r d _ _ _ => exact .refl d r
  | inside r d _ _ _ _ _ _ => exact .refl d r

/-! ### Attributes -/

namespace Document

/-- From one document to another by alterations, wherever the document stands. -/
def Altered (doc doc' : Document) : Prop :=
  ∀ r d, DocumentMapper.Altered r d (.document doc) d (.document doc')

theorem Altered.refl (doc : Document) : doc.Altered doc :=
  fun r d => .refl r d _

theorem Altered.trans {doc doc' doc'' : Document} (h : doc.Altered doc')
    (h' : doc'.Altered doc'') : doc.Altered doc'' :=
  fun r d => (h r d).trans (h' r d)

/-- Assigning an attribute alters the document. -/
theorem altered_set {doc doc' : Document} {name : String} {v : Value}
    (hname : IsAttributeName (doc.type.attributeOf name)) (h : doc.set name v = .ok doc') :
    doc.Altered doc' := by
  rcases set_cases h with rfl | rfl
  · exact .refl doc'
  · exact fun r d => .assigned r d doc hname v

/-- Opening an attribute alters the document. -/
theorem OpenedAt.altered {doc doc' : Document} {key : String} (h : doc.OpenedAt key doc')
    (hkey : IsAttributeName key) : doc.Altered doc' := by
  cases h with
  | same => exact .refl doc
  | put hmissing hcontainer =>
    exact fun r d => .opened r d hkey hmissing (hcontainer.imp And.left And.left)

end Document

/-- **Alterations are closed under tracked edits** whose names are paths of one segment. -/
theorem editClosed_altered : EditClosed IsSegment IsAttributeName Altered Document.Altered where
  refl := .refl
  trans := .trans
  marked d _ hpath v v' := .marked d hpath v v'
  item hv h := .item hv h
  key d path _ _ _ hkey hother := .key d path hkey hother
  entry {r d d' entries key v v'} hkey hv h := by
    rw [dottedSegments_of_isSegment hkey] at h
    exact .entry hkey (fun k hk => Entries.get?_modify_of_ne entries _ hk) hv
      (Entries.get?_modify_self hv _) h
  document r d _ _ h := h r d
  documentRefl := .refl
  documentTrans := .trans
  named hkey := hkey.1
  opened hkey h := h.altered hkey
  inside {doc key v d' v'} hkey hv h := by
    rw [dottedSegments_of_isSegment hkey.2] at h
    have hother : ∀ name, name ≠ key → Entries.get? (Entries.modify doc.values key fun _ => v') name =
        Entries.get? doc.values name := fun _ hname =>
      Entries.get?_modify_of_ne doc.values (fun _ => v') hname
    exact fun r d => .inside r d hkey hother hv (Entries.get?_modify_self hv fun _ => v') h

/-! ### Visits and edits -/

/-- A visitor that leaves alterations of what it is handed. -/
structure Visitor.Alters {α : Type} (w : Visitor α) : Prop where
  lists : ∀ l : ListView, l.Edited (w.onList l).2
  dicts : ∀ d : DictView, d.Edited (w.onDict d).2
  documents : ∀ doc : Document, doc.Altered (w.onDocument doc).2

/-- What a visit leaves is altered from the value that it started with. -/
def Visited.Altered {α : Type} (r : Visited α) (position : List String) (d : DirtyPaths)
    (v : Value) : Prop :=
  ∃ d', r.record = some d' ∧ DocumentMapper.Altered position d v d' r.value

/-- **A visit alters the value that it starts with.** -/
theorem Value.altered_visit {α : Type} {w : Visitor α} (hw : w.Alters) (steps : List ViewStep)
    (v : Value) (d : DirtyPaths) {path : String} (hpath : path ≠ "") (hplain : v.PlainAlong steps) :
    (Value.visit w steps v (some d) path).Altered (dottedSegments path) d v :=
  editClosed_altered.visit_related hw.lists (fun l => (hw.dicts l).changes) hw.documents
    hplain.along rfl hpath

/-- **Tracked edits alter the document.** -/
theorem Document.Edited.altered {kept : Option String} {doc doc' : Document}
    (h : Edited kept doc doc') : doc.Altered doc' := by
  induction h with
  | refl kept doc => exact .refl doc
  | set _ hname _ hset ih => exact ih.trans (altered_set hname hset)
  | unset _ hname _ hunset ih => exact ih.trans (altered_set hname hunset)
  | @visit _ _ _ opened _ _ _ _ _ _ _ henter hkey _ hplain hlists hdicts _ ih ihdocuments =>
    obtain ⟨-, hopened⟩ := openedAt_enter henter
    have hvisit := Value.altered_visit ⟨hlists, hdicts, ihdocuments⟩ _ _ opened.dirty hkey.1 hplain
    exact (ih.trans (hopened.altered hkey)).trans
      (editClosed_altered.afterVisit_related hkey rfl hvisit)

end DocumentMapper
