import Mathlib.Logic.Relation
import DocumentMapper.Document.View
import DocumentMapper.Proofs.LivePaths
import DocumentMapper.Proofs.Runs

/-!
# Relations closed under tracked edits

An operation on a view changes a value together with the record of the document that it belongs to:
it marks an item or a key and changes what is there, or marks the value as a whole. A visit goes on
in an item, in the value of a key, or in an attribute of an embedded document, which has a record of
its own and may be opened on the way.

`EditClosed` has one clause for each of these. A relation with these clauses relates what any visit
starts with to what it leaves, so that a property of all visits is proved clause by clause, and only
here by induction over their steps. The clauses need to cover the keys and attributes that are named
on the way and by the operations, no others.

## Main results

* `ListView.Step.cases`, `DictView.Step.changes`, `DictView.Call.changes`: what an operation does;
* `Document.openedAt_enter`: what entering an attribute does;
* `EditClosed.visit_related`: what any visit starts with is related to what it leaves.
-/

namespace DocumentMapper

open Text

/-! ### Operations on list views -/

namespace ListView

/-- An operation on a list view. -/
inductive Step : ListView → ListView → Prop
  | set {l l' : ListView} {i : Nat} {v : Value} (h : l.set i v = .ok l') : Step l l'
  | removeAt {l l' : ListView} {i : Nat} {v : Value} (h : l.removeAt i = .ok (v, l')) : Step l l'
  | push (l : ListView) (v : Value) : Step l (l.push v)
  | extend (l : ListView) (vs : List Value) : Step l (l.extend vs)
  | insert (l : ListView) (i : Nat) (v : Value) : Step l (l.insert i v)
  | pop (l : ListView) : Step l l.pop.2
  | remove {l l' : ListView} {v w : Value} (h : l.remove v = .ok (w, l')) : Step l l'
  | sortBy (l : ListView) (before : Value → Value → Bool) : Step l (l.sortBy before)
  | reverse (l : ListView) : Step l l.reverse
  | retain (l : ListView) (keep : Value → Bool) : Step l (l.retain keep)
  | clear (l : ListView) : Step l l.clear

/-- Any sequence of operations on a list view. -/
def Edited : ListView → ListView → Prop :=
  Relation.ReflTransGen Step

/-- Removing an item marks the list as a whole. -/
theorem removeAt_eq_ok {l l' : ListView} {i : Nat} {v : Value} (h : l.removeAt i = .ok (v, l')) :
    ∃ items, l' = l.replaceItems items := by
  unfold removeAt at h
  split at h
  · cases h
    exact ⟨_, rfl⟩
  · cases h

/-- An operation assigns one item, leaves the view alone or marks the list as a whole. -/
theorem Step.cases {l l' : ListView} (h : l.Step l') :
    (∃ i v, i < l.items.length ∧ l' = { l with
        items := l.items.set i v
        record := l.record.map (·.mark (l.path ++ "." ++ toString i)) }) ∨
      l' = l ∨ ∃ items, l' = l.replaceItems items := by
  cases h with
  | set h =>
    unfold ListView.set at h
    split at h
    · rename_i hi
      cases h
      exact .inl ⟨_, _, hi, rfl⟩
    · cases h
  | removeAt h => exact .inr (.inr (removeAt_eq_ok h))
  | push v => exact .inr (.inr ⟨_, rfl⟩)
  | extend vs => exact .inr (.inr ⟨_, rfl⟩)
  | insert i v => exact .inr (.inr ⟨_, rfl⟩)
  | pop =>
    unfold ListView.pop
    split
    · exact .inr (.inr ⟨_, rfl⟩)
    · exact .inr (.inl rfl)
  | remove h =>
    unfold ListView.remove at h
    split at h
    · exact .inr (.inr (removeAt_eq_ok h))
    · cases h
  | sortBy before => exact .inr (.inr ⟨_, rfl⟩)
  | reverse => exact .inr (.inr ⟨_, rfl⟩)
  | retain keep => exact .inr (.inr ⟨_, rfl⟩)
  | clear => exact .inr (.inr ⟨_, rfl⟩)

end ListView

/-! ### Operations on dict views -/

namespace DictView

/-- What an operation on a dict view does: it marks one key, the only one whose value may change,
leaves the view alone, or marks the dict as a whole. -/
inductive Changes (Key : String → Prop) (l : DictView) : DictView → Prop
  | key {key : String} (hkey : Key key) {entries : List (String × Value)}
      (hother : ∀ k, k ≠ key → Entries.get? entries k = Entries.get? l.entries k) :
      Changes Key l { l.markKey key with entries }
  | same : Changes Key l l
  | whole (entries : List (String × Value)) : Changes Key l (l.replaceEntries entries)

section

variable {Key : String → Prop} (l : DictView)

theorem changes_insert {key : String} (hkey : Key key) (v : Value) :
    l.Changes Key (l.insert key v).2 :=
  .key hkey fun _ hk => Entries.get?_insertSorted_of_ne _ _ (Ne.symm hk)

theorem changes_remove {key : String} (hkey : Key key) : l.Changes Key (l.remove key).2 := by
  unfold DictView.remove
  split
  · exact .key hkey fun _ hk => Entries.get?_erase_of_ne _ (Ne.symm hk)
  · exact .same

theorem changes_popItem : l.Changes Key l.popItem.2 := by
  unfold DictView.popItem
  split
  · exact .whole _
  · exact .same

theorem changes_setDefault (key : String) (v : Value) : l.Changes Key (l.setDefault key v).2 := by
  unfold DictView.setDefault
  split
  · exact .same
  · exact .whole _

end

/-- An operation on a dict view. A key that is assigned or removed for itself is one segment. -/
inductive Step : DictView → DictView → Prop
  | insert (l : DictView) {key : String} (hkey : IsSegment key) (v : Value) :
      Step l (l.insert key v).2
  | remove (l : DictView) {key : String} (hkey : IsSegment key) : Step l (l.remove key).2
  | popItem (l : DictView) : Step l l.popItem.2
  | update (l : DictView) (more : List (String × Value)) : Step l (l.update more)
  | setDefault (l : DictView) (key : String) (v : Value) : Step l (l.setDefault key v).2
  | clear (l : DictView) : Step l l.clear

/-- Any sequence of operations on a dict view. -/
def Edited : DictView → DictView → Prop :=
  Relation.ReflTransGen Step

/-- What an operation does, if the keys are segments. -/
theorem Step.changes {l l' : DictView} (h : l.Step l') : l.Changes IsSegment l' := by
  cases h with
  | insert hkey v => exact l.changes_insert hkey v
  | remove hkey => exact l.changes_remove hkey
  | popItem => exact l.changes_popItem
  | update more => exact .whole _
  | setDefault key v => exact l.changes_setDefault key v
  | clear => exact .whole _

theorem Edited.changes {l l' : DictView} (h : l.Edited l') :
    Relation.ReflTransGen (Changes IsSegment) l l' :=
  Relation.ReflTransGen.mono (fun _ _ => Step.changes) l l' h

/-- A call on a dict view, with any key. -/
inductive Call : DictView → DictView → Prop
  | insert (l : DictView) (key : String) (v : Value) : Call l (l.insert key v).2
  | remove (l : DictView) (key : String) : Call l (l.remove key).2
  | popItem (l : DictView) : Call l l.popItem.2
  | update (l : DictView) (more : List (String × Value)) : Call l (l.update more)
  | setDefault (l : DictView) (key : String) (v : Value) : Call l (l.setDefault key v).2
  | clear (l : DictView) : Call l l.clear

/-- Any sequence of calls on a dict view. -/
def Called : DictView → DictView → Prop :=
  Relation.ReflTransGen Call

/-- What a call does, whatever the key. -/
theorem Call.changes {l l' : DictView} (h : l.Call l') : l.Changes (fun _ => True) l' := by
  cases h with
  | insert key v => exact l.changes_insert trivial v
  | remove key => exact l.changes_remove trivial
  | popItem => exact l.changes_popItem
  | update more => exact .whole _
  | setDefault key v => exact l.changes_setDefault key v
  | clear => exact .whole _

theorem Called.changes {l l' : DictView} (h : l.Called l') :
    Relation.ReflTransGen (Changes fun _ => True) l l' :=
  Relation.ReflTransGen.mono (fun _ _ => Call.changes) l l' h

end DictView

/-! ### Attributes -/

namespace Document

/-- An accepted name stands for an attribute. -/
theorem attributeName_eq_ok {doc : Document} {name key : String}
    (h : doc.attributeName name = .ok key) : key = doc.type.attributeOf name := by
  simp only [attributeName] at h
  split at h
  · cases h
    rfl
  · cases h

/-- An assignment leaves the document alone, or marks and puts the attribute. -/
theorem set_cases {doc doc' : Document} {name : String} {v : Value}
    (h : doc.set name v = .ok doc') :
    doc' = doc ∨ doc' = (doc.mark (doc.type.attributeOf name)).put (doc.type.attributeOf name) v := by
  obtain ⟨key, hname, h⟩ := bind_eq_ok.mp h
  obtain rfl := attributeName_eq_ok hname
  split at h
  · cases h
    exact .inl rfl
  · cases h
    exact .inr rfl

/-- A document as it is, or with an empty list or dict in place of no value where a view creates
one. -/
inductive OpenedAt (doc : Document) (key : String) : Document → Prop
  | same : OpenedAt doc key doc
  | put {container : Value}
      (hmissing : Entries.get? doc.values key = none ∨ Entries.get? doc.values key = some .null)
      (hcontainer : container = .list [] ∧ (doc.type.seat key).opensList = true ∨
        container = .dict [] ∧ (doc.type.seat key).opensDict = true) :
      OpenedAt doc key (doc.put key container)

/-- A visit of an attribute opens it. -/
theorem openedAt_withContainer (doc : Document) (key : String) :
    doc.OpenedAt key (doc.withContainer key) := by
  unfold withContainer
  split
  · exact .same
  · rename_i hvalue
    have hmissing : Entries.get? doc.values key = none ∨
        Entries.get? doc.values key = some .null := by
      rcases hv : Entries.get? doc.values key with _ | v
      · exact .inl rfl
      · cases v <;> simp_all [Value.isNull]
    split
    · rename_i container hcontainer
      obtain ⟨f, hf, hkind⟩ := Option.bind_eq_some_iff.mp hcontainer
      refine .put hmissing ?_
      have hdescribe : doc.type.describe? key = some f := by simp [DocumentType.describe?, hf]
      cases hk : f.kind <;> rw [hk] at hkind <;> cases hkind
      · exact .inl ⟨rfl, by simp [DocumentType.seat, hdescribe, hk, Kind.isList]⟩
      · exact .inr ⟨rfl, by simp [DocumentType.seat, hdescribe, hk, Kind.isDict]⟩
    · exact .same

/-- Opening an attribute as a list or dict. -/
theorem openedAt_openContainer {doc doc' : Document} {key wanted : String} {accepts : Kind → Bool}
    {isWanted : Value → Bool} {container : Value}
    (hcontainer : container = .list [] ∧ accepts = Kind.isList ∨
      container = .dict [] ∧ accepts = Kind.isDict)
    (h : doc.openContainer key wanted accepts isWanted container = .ok doc') :
    doc.OpenedAt key doc' := by
  unfold openContainer at h
  split at h
  · rename_i haccepts
    have hput : Entries.get? doc.values key = none ∨ Entries.get? doc.values key = some .null →
        doc.OpenedAt key (doc.put key container) := by
      intro hmissing
      refine .put hmissing ?_
      rcases hcontainer with ⟨rfl, rfl⟩ | ⟨rfl, rfl⟩
      · exact .inl ⟨rfl, haccepts⟩
      · exact .inr ⟨rfl, haccepts⟩
    split at h
    · rename_i v hv
      split at h
      · rename_i hnull
        cases h
        refine hput (.inr ?_)
        rw [hv]
        cases v <;> simp_all [Value.isNull]
      · split at h
        · cases h
          exact .same
        · cases h
    · rename_i hnone
      cases h
      exact hput (.inl hnone)
  · cases h

/-- Entering an attribute opens the attribute that the name stands for: as a field, as a list, as a
dict, or as the document that it holds. -/
theorem enter_cases {doc doc' : Document} {how : Entrance} {name key : String}
    (h : doc.enter how name = .ok (key, doc')) :
    doc.attributeName name = .ok key ∧
      (doc' = doc.withContainer key ∨
        doc.openContainer key "list" Kind.isList (·.asList?.isSome) (.list []) = .ok doc' ∨
        doc.openContainer key "dict" Kind.isDict (·.asDict?.isSome) (.dict []) = .ok doc' ∨
        doc' = doc) := by
  unfold enter at h
  obtain ⟨k, hname, h⟩ := bind_eq_ok.mp h
  obtain ⟨opened, hopen, h⟩ := bind_eq_ok.mp h
  rw [mapError_eq_ok] at hname hopen
  cases h
  refine ⟨hname, ?_⟩
  cases how with
  | field =>
    cases hopen
    exact .inl rfl
  | list => exact .inr (.inl hopen)
  | dict => exact .inr (.inr (.inl hopen))
  | embedded =>
    rcases hv : Entries.get? doc.values key with _ | v
    · simp [hv, throw, throwThe, MonadExceptOf.throw] at hopen
    · cases v <;> simp [hv, throw, throwThe, MonadExceptOf.throw, pure, Except.pure] at hopen
      exact .inr (.inr (.inr hopen.symm))

/-- Entering opens the attribute that the name stands for. -/
theorem openedAt_enter {doc doc' : Document} {how : Entrance} {name key : String}
    (h : doc.enter how name = .ok (key, doc')) :
    key = doc.type.attributeOf name ∧ doc.OpenedAt key doc' := by
  obtain ⟨hname, hopen⟩ := enter_cases h
  refine ⟨attributeName_eq_ok hname, ?_⟩
  obtain rfl | hlist | hdict | rfl := hopen
  · exact openedAt_withContainer doc key
  · exact openedAt_openContainer (.inl ⟨rfl, rfl⟩) hlist
  · exact openedAt_openContainer (.inr ⟨rfl, rfl⟩) hdict
  · exact .same

end Document

/-! ### Visits of attributes -/

/-- Nothing is found in null. -/
theorem Value.visit_null {α : Type} (w : Visitor α) (steps : List ViewStep)
    (record : Option DirtyPaths) (path : String) :
    (Value.visit w steps .null record path).value = .null ∧
      (Value.visit w steps .null record path).record = record := by
  rcases steps with _ | ⟨step, rest⟩
  · exact ⟨rfl, rfl⟩
  · cases step <;> exact ⟨rfl, rfl⟩

namespace Document

/-- A visit of a missing value leaves the document as it is. -/
theorem afterVisit_of_missing {α : Type} {doc : Document} {key : String}
    (hmissing : Entries.get? doc.values key = none) (w : Visitor α) (steps : List ViewStep) :
    doc.afterVisit key (Value.visit w steps .null (some doc.dirty) key) = doc := by
  obtain ⟨-, hrecord⟩ := Value.visit_null w steps (some doc.dirty) key
  rw [afterVisit, Entries.modify_of_get?_none hmissing, hrecord]
  cases doc
  rfl

end Document

/-! ### Closed relations -/

/-- The names on the way of a visit are covered. -/
def Value.Along (Key Attribute : String → Prop) : List ViewStep → Value → Prop
  | .item i :: rest, .list items => ∀ v, items[i]? = some v → v.Along Key Attribute rest
  | .key name :: rest, .dict entries =>
    ∀ v, Entries.get? entries name = some v → Key name ∧ v.Along Key Attribute rest
  | .key name :: rest, .document doc =>
    ∀ key, doc.attributeName name = .ok key → Attribute key ∧
      ((Entries.get? (doc.withContainer key).values key).getD .null).Along Key Attribute rest
  | _, _ => True

/-- Values that views show, related together with the records that the views have, if any. -/
def ViewRelated (R : List String → DirtyPaths → Value → DirtyPaths → Value → Prop) (path : String)
    (record record' : Option DirtyPaths) (v v' : Value) : Prop :=
  ∀ d, record = some d → ∃ d', record' = some d' ∧ R (dottedSegments path) d v d' v'

/-- **Closure under tracked edits**, of a relation from a record and a value at a position to
others, together with one of documents: a clause for each thing that an edit does, where keys and
attributes are covered. -/
structure EditClosed (Key Attribute : String → Prop)
    (R : List String → DirtyPaths → Value → DirtyPaths → Value → Prop)
    (D : Document → Document → Prop) : Prop where
  refl : ∀ r d v, R r d v d v
  trans : ∀ {r d d' d'' v v' v''}, R r d v d' v' → R r d' v' d'' v'' → R r d v d'' v''
  /-- Where the position is marked, anything may take the place of the value. -/
  marked : ∀ d {path}, path ≠ "" → ∀ v v', R (dottedSegments path) d v (d.mark path) v'
  item : ∀ {r d d' items v v'} {i : Nat}, items[i]? = some v → R (r ++ [toString i]) d v d' v' →
    R r d (.list items) d' (.list (items.set i v'))
  /-- A key is marked, and its value put, changed or removed. -/
  key : ∀ d path {entries others key}, Key key →
    (∀ k, k ≠ key → Entries.get? others k = Entries.get? entries k) →
    R (dottedSegments path) d (.dict entries) (d.mark (path ++ "." ++ key)) (.dict others)
  entry : ∀ {r d d' entries key v v'}, Key key → Entries.get? entries key = some v →
    R (r ++ dottedSegments key) d v d' v' →
    R r d (.dict entries) d' (.dict (Entries.modify entries key fun _ => v'))
  /-- An embedded document changes, and the record around it does not. -/
  document : ∀ r d {doc doc'}, D doc doc' → R r d (.document doc) d (.document doc')
  documentRefl : ∀ doc, D doc doc
  documentTrans : ∀ {doc doc' doc''}, D doc doc' → D doc' doc'' → D doc doc''
  named : ∀ {name}, Attribute name → name ≠ ""
  opened : ∀ {doc doc' key}, Attribute key → doc.OpenedAt key doc' → D doc doc'
  /-- The value of an attribute changes together with the record of its document. -/
  inside : ∀ {doc : Document} {key v d' v'}, Attribute key →
    Entries.get? doc.values key = some v → R (dottedSegments key) doc.dirty v d' v' →
    D doc { doc with values := Entries.modify doc.values key fun _ => v', dirty := d' }

namespace EditClosed

variable {Key Attribute : String → Prop}
  {R : List String → DirtyPaths → Value → DirtyPaths → Value → Prop}
  {D : Document → Document → Prop} (hR : EditClosed Key Attribute R D)

include hR

/-- An operation on a list view. -/
theorem list_step {l l' : ListView} (h : l.Step l') (hpath : l.path ≠ "") :
    l'.path = l.path ∧
      ViewRelated R l.path l.record l'.record (.list l.items) (.list l'.items) := by
  rcases h.cases with ⟨i, v, hi, rfl⟩ | rfl | ⟨items, rfl⟩
  · refine ⟨rfl, fun d hd => ⟨d.mark (l.path ++ "." ++ toString i), by simp [hd], ?_⟩⟩
    refine hR.item (List.getElem?_eq_getElem hi) ?_
    rw [← dottedSegments_below l.path (isSegment_toString i)]
    exact hR.marked d (ne_empty_below l.path (toString i)) l.items[i] v
  · exact ⟨rfl, fun d hd => ⟨d, hd, hR.refl _ _ _⟩⟩
  · exact ⟨rfl, fun d hd => ⟨d.mark l.path, by simp [ListView.replaceItems, hd],
      hR.marked d hpath _ _⟩⟩

/-- **Any operations on a list view.** -/
theorem list_edited {l l' : ListView} (h : l.Edited l') (hpath : l.path ≠ "") :
    l'.path = l.path ∧
      ViewRelated R l.path l.record l'.record (.list l.items) (.list l'.items) := by
  induction h with
  | refl => exact ⟨rfl, fun d hd => ⟨d, hd, hR.refl _ _ _⟩⟩
  | tail _ hstep ih =>
    obtain ⟨hsame, hfirst⟩ := ih
    obtain ⟨hsame', hnext⟩ := hR.list_step hstep (by rwa [hsame])
    refine ⟨hsame'.trans hsame, fun d hd => ?_⟩
    obtain ⟨d', hd', hrelated⟩ := hfirst d hd
    obtain ⟨d'', hd'', hrelated'⟩ := hnext d' hd'
    rw [hsame] at hrelated'
    exact ⟨d'', hd'', hR.trans hrelated hrelated'⟩

/-- An operation on a dict view. -/
theorem dict_changes {l l' : DictView} (h : l.Changes Key l') (hpath : l.path ≠ "") :
    l'.path = l.path ∧
      ViewRelated R l.path l.record l'.record (.dict l.entries) (.dict l'.entries) := by
  cases h with
  | @key key hkey entries hother =>
    exact ⟨rfl, fun d hd => ⟨d.mark (l.path ++ "." ++ key), by simp [DictView.markKey, hd],
      hR.key d l.path hkey hother⟩⟩
  | same => exact ⟨rfl, fun d hd => ⟨d, hd, hR.refl _ _ _⟩⟩
  | whole entries =>
    exact ⟨rfl, fun d hd => ⟨d.mark l.path, by simp [DictView.replaceEntries, hd],
      hR.marked d hpath _ _⟩⟩

/-- **Any operations on a dict view.** -/
theorem dict_edited {l l' : DictView} (h : Relation.ReflTransGen (DictView.Changes Key) l l')
    (hpath : l.path ≠ "") :
    l'.path = l.path ∧
      ViewRelated R l.path l.record l'.record (.dict l.entries) (.dict l'.entries) := by
  induction h with
  | refl => exact ⟨rfl, fun d hd => ⟨d, hd, hR.refl _ _ _⟩⟩
  | tail _ hstep ih =>
    obtain ⟨hsame, hfirst⟩ := ih
    obtain ⟨hsame', hnext⟩ := hR.dict_changes hstep (by rwa [hsame])
    refine ⟨hsame'.trans hsame, fun d hd => ?_⟩
    obtain ⟨d', hd', hrelated⟩ := hfirst d hd
    obtain ⟨d'', hd'', hrelated'⟩ := hnext d' hd'
    rw [hsame] at hrelated'
    exact ⟨d'', hd'', hR.trans hrelated hrelated'⟩

/-- Visiting an attribute relates the documents if the visit relates the values. -/
theorem afterVisit_related {α : Type} {doc : Document} {key : String} (hkey : Attribute key)
    {w : Visitor α} {steps : List ViewStep} {r : Visited α}
    (hr : Value.visit w steps ((Entries.get? doc.values key).getD .null) (some doc.dirty) key = r)
    (h : ∃ d', r.record = some d' ∧
      R (dottedSegments key) doc.dirty ((Entries.get? doc.values key).getD .null) d' r.value) :
    D doc (doc.afterVisit key r) := by
  obtain ⟨d', hrecord, hrelated⟩ := h
  cases hv : Entries.get? doc.values key with
  | none =>
    rw [← hr, hv, Option.getD_none, Document.afterVisit_of_missing hv]
    exact hR.documentRefl doc
  | some v =>
    rw [hv, Option.getD_some] at hrelated
    rw [Document.afterVisit, hrecord]
    exact hR.inside hkey hv hrelated

/-- **What a visit starts with is related to what it leaves**, if what its visitor is handed is. -/
theorem visit_related {α : Type} {w : Visitor α} (hlists : ∀ l : ListView, l.Edited (w.onList l).2)
    (hdicts : ∀ l : DictView, Relation.ReflTransGen (DictView.Changes Key) l (w.onDict l).2)
    (hdocuments : ∀ doc : Document, D doc (w.onDocument doc).2) {steps : List ViewStep} {v : Value}
    (hsteps : v.Along Key Attribute steps) {record : Option DirtyPaths} {d : DirtyPaths}
    (hrecord : record = some d) {path : String} (hpath : path ≠ "") :
    ∃ d', (Value.visit w steps v record path).record = some d' ∧
      R (dottedSegments path) d v d' (Value.visit w steps v record path).value := by
  fun_induction Value.visit w steps v record path generalizing d with
  | case1 v record path =>
    subst hrecord
    cases v with
    | list items =>
      obtain ⟨-, hrelated⟩ := hR.list_edited (hlists ⟨items, some d, path⟩) hpath
      exact hrelated d rfl
    | dict entries =>
      obtain ⟨-, hrelated⟩ := hR.dict_edited (hdicts ⟨entries, some d, path⟩) hpath
      exact hrelated d rfl
    | document doc => exact ⟨d, rfl, hR.document _ d (hdocuments doc)⟩
    | _ => exact ⟨d, rfl, hR.refl _ d _⟩
  | case2 i rest items record path v hv r ih =>
    obtain ⟨d', hrecord', hrelated⟩ :=
      ih (hsteps v hv) hrecord (ne_empty_below path (toString i))
    rw [dottedSegments_below path (isSegment_toString i)] at hrelated
    exact ⟨d', hrecord', hR.item hv hrelated⟩
  | case4 name rest entries record path v hv r ih =>
    obtain ⟨hname, hrest⟩ := hsteps v hv
    obtain ⟨d', hrecord', hrelated⟩ := ih hrest hrecord (ne_empty_below path name)
    rw [dottedSegments_append] at hrelated
    exact ⟨d', hrecord', hR.entry hname hv hrelated⟩
  | case6 name rest doc record path key hname opened v r =>
    -- The document has a record of its own, and the one around it is left alone.
    rename_i ih
    obtain ⟨hkey, hrest⟩ := hsteps key hname
    have hafter := hR.afterVisit_related hkey rfl (ih hrest rfl (hR.named hkey))
    have hopened := hR.opened hkey (doc.openedAt_withContainer key)
    exact ⟨d, hrecord, hR.document _ d (hR.documentTrans hopened hafter)⟩
  | case3 | case5 | case7 | case8 => exact ⟨d, hrecord, hR.refl _ d _⟩

end EditClosed

end DocumentMapper
