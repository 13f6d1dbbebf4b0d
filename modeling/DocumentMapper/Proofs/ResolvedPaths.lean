import DocumentMapper.Proofs.BuiltTypes
import DocumentMapper.Proofs.FilterPaths
import DocumentMapper.Proofs.KeywordConditions
import DocumentMapper.Proofs.TypeHierarchy

/-!
# Stored paths, resolved again

A path resolves to elements, and their storage names are the path in the store. These names are
looked up in the same way: on a type a segment is an attribute first, then a storage name, then an
attribute of a subtype. So a storage name leads to another field if another attribute is spelled
like it, or if it is `pk`; and it leads nowhere if the field belongs to a subtype, because storage
names of subtypes are not looked up. In the items of a list it is a position if it is spelled like
one.

Where none of this happens, a way down is gone again step by step (`Kind.Enters`), to the same
elements. Below a field that holds anything every way is stored as it is spelled.

## Main results

* `Catalog.fieldOn_storageName_iff`: when a type finds a field again under its storage name;
* `Kind.Enters.again_iff`: when a step is taken again by its storage name;
* `Field.walk_again_iff`, `Field.walk_alike`: when a whole way is;
* `Catalog.resolve_storagePath`: when the stored path of a path resolves to the same elements, and
  when to the same path in the store.
-/

namespace DocumentMapper

open Text

/-! ### Fields by their storage names -/

namespace DocumentType

variable {t : DocumentType} {f : Field}

theorem attributeOf_attributeOf (t : DocumentType) (name : String) :
    t.attributeOf (t.attributeOf name) = t.attributeOf name := by
  unfold attributeOf
  by_cases hname : name = "pk"
  · subst hname
    cases t.primaryKey <;> simp
  · rw [if_neg hname, if_neg hname]

/-- A name is an attribute of its own, unless it stands for a primary key. -/
theorem attributeOf_eq_self {name : String} (h : name = "pk" → t.primaryKey = none) :
    t.attributeOf name = name := by
  unfold attributeOf
  split
  · rename_i hname
    rw [h hname]
    rfl
  · rfl

/-- The primary key of a built type is one of its fields. -/
theorem Built.exists_field_of_primaryKey {key : String} (h : t.Built)
    (hkey : t.primaryKey = some key) :
    ∃ f ∈ t.fields, t.field? key = some f ∧ f.storageName = idKey := by
  obtain ⟨decl, hd⟩ := h
  rcases (Declaration.build_eq_ok hd).2 with ⟨-, hnone⟩ | ⟨_, key', f, -, hkey', hf, hstored⟩
  · rw [hkey] at hnone
    cases hnone
  · rw [hkey] at hkey'
    obtain rfl := Option.some.inj hkey'
    exact ⟨f, List.mem_of_find?_eq_some hf, hf, hstored⟩

/-- What it takes for a field to be found under its storage name. No other attribute of the type is
spelled like that, and the name does not stand for the primary key. A field that the type has from
elsewhere is only known by its own name. -/
structure FindsAgain (t : DocumentType) (f : Field) : Prop where
  own (h : f ∈ t.fields) : ∀ g ∈ t.fields, g.name = f.storageName → g = f
  key (h : f ∈ t.fields) : f.storageName = "pk" → t.primaryKey = none
  other (h : f ∉ t.fields) : f.storageName = f.name

end DocumentType

namespace Catalog

variable {c : Catalog} {t : DocumentType} {segment : String} {f : Field}

theorem fieldOn_attributeOf (c : Catalog) (t : DocumentType) (segment : String) :
    c.fieldOn t (t.attributeOf segment) = c.fieldOn t segment := by
  simp only [fieldOn, DocumentType.attributeOf_attributeOf]

/-- A field that is found on a type is one of its own, or it has the name and no own one has. -/
theorem fieldOn_cases (h : c.fieldOn t segment = .ok f) :
    f ∈ t.fields ∨ f ∉ t.fields ∧ f.name = t.attributeOf segment := by
  have hother : ∀ {g : Field}, (t.field? (t.attributeOf segment)).or
      (t.storedField? (t.attributeOf segment)) = none → g.name = t.attributeOf segment →
      g ∉ t.fields := by
    intro g hnone hname hmem
    have hfield := (Option.or_eq_none_iff.mp hnone).1
    simpa [hname] using List.find?_eq_none.mp hfield g hmem
  simp only [fieldOn] at h
  split at h
  · rename_i g hg
    obtain rfl := Except.ok.inj h
    rcases Option.or_eq_some_iff.mp hg with hg | ⟨-, hg⟩
    · exact .inl (List.mem_of_find?_eq_some hg)
    · exact .inl (List.mem_of_find?_eq_some hg)
  · rename_i hnone
    split at h
    · rename_i g hg
      obtain rfl := Except.ok.inj h
      split at hg
      · obtain ⟨s, -, hs⟩ := List.exists_of_findSome?_eq_some hg
        have hname : g.name = t.attributeOf segment := by simpa using List.find?_some hs
        exact .inr ⟨hother hnone hname, hname⟩
      · cases hg
    · split at h
      · obtain rfl := Except.ok.inj h
        exact .inr ⟨hother hnone rfl, rfl⟩
      · cases h

/-- The primary key is found as `pk`. -/
theorem fieldOn_pk (c : Catalog) {key : String} (ht : t.Built) (hkey : t.primaryKey = some key) :
    ∃ g ∈ t.fields, c.fieldOn t "pk" = .ok g ∧ g.storageName = idKey := by
  obtain ⟨g, hmem, hg, hstored⟩ := ht.exists_field_of_primaryKey hkey
  have hattribute : t.attributeOf "pk" = key := by simp [DocumentType.attributeOf, hkey]
  exact ⟨g, hmem, c.fieldOn_of_field? (hattribute ▸ hg), hstored⟩

/-- **A field that is found on a type is found again under its storage name**, exactly if the type
finds it again. -/
theorem fieldOn_storageName_iff (ht : t.Built) (h : c.fieldOn t segment = .ok f) :
    c.fieldOn t f.storageName = .ok f ↔ t.FindsAgain f := by
  constructor
  · intro hagain
    have hkey : f ∈ t.fields → f.storageName = "pk" → t.primaryKey = none := by
      intro hmem hpk
      cases hprimary : t.primaryKey with
      | none => rfl
      | some key =>
        obtain ⟨g, -, hg, hstored⟩ := c.fieldOn_pk ht hprimary
        rw [hpk, hg] at hagain
        obtain rfl := Except.ok.inj hagain
        rw [hstored] at hpk
        exact absurd hpk (by decide)
    refine ⟨fun hmem g hg hname => ?_, hkey, fun hmem => ?_⟩
    · have hself := DocumentType.attributeOf_eq_self (hkey hmem)
      have hfield : t.field? (t.attributeOf f.storageName) = some g := by
        rw [hself, ← hname]
        exact ht.field?_of_mem hg
      rw [c.fieldOn_of_field? hfield] at hagain
      exact Except.ok.inj hagain
    · have hname := ((fieldOn_cases hagain).resolve_left hmem).2
      by_cases hpk : f.storageName = "pk"
      · cases hprimary : t.primaryKey with
        | none => rw [hname, DocumentType.attributeOf_eq_self fun _ => hprimary]
        | some key =>
          obtain ⟨g, hg, hfield, -⟩ := c.fieldOn_pk ht hprimary
          rw [hpk, hfield] at hagain
          obtain rfl := Except.ok.inj hagain
          exact absurd hg hmem
      · rw [hname, DocumentType.attributeOf_eq_self fun h => absurd h hpk]
  · intro hfinds
    by_cases hmem : f ∈ t.fields
    · have hself := DocumentType.attributeOf_eq_self (hfinds.key hmem)
      cases hfield : t.field? f.storageName with
      | some g =>
        have hname : g.name = f.storageName := by simpa using List.find?_some hfield
        obtain rfl := hfinds.own hmem g (List.mem_of_find?_eq_some hfield) hname
        exact c.fieldOn_of_field? (hself.symm ▸ hfield)
      | none =>
        simp only [fieldOn, hself, hfield, Option.none_or, ht.storedField?_of_mem hmem]
        rfl
    · have hname := ((fieldOn_cases h).resolve_left hmem).2
      rw [hfinds.other hmem, hname, fieldOn_attributeOf, h]

/-- A dynamic type knows nothing of a name. -/
structure LeavesOpen (c : Catalog) (t : DocumentType) (name : String) : Prop where
  isDynamic : t.isDynamic = true
  key : name = "pk" → t.primaryKey = none
  own : ∀ g ∈ t.fields, g.name ≠ name ∧ g.storageName ≠ name
  inherited : t.allowsInheritance = true → ∀ s ∈ c.subtypesOf t, ∀ g ∈ s.fields, g.name ≠ name

/-- What a dynamic type knows nothing of may hold anything. -/
theorem LeavesOpen.fieldOn {name : String} (h : c.LeavesOpen t name) :
    c.fieldOn t name = .ok (.any name) := by
  have hself := DocumentType.attributeOf_eq_self h.key
  have hfield : t.field? name = none := by
    rw [DocumentType.field?, List.find?_eq_none]
    exact fun g hg => by simpa using (h.own g hg).1
  have hstored : t.storedField? name = none := by
    rw [DocumentType.storedField?, List.find?_eq_none]
    exact fun g hg => by simpa using (h.own g hg).2
  have hinherited : (if t.allowsInheritance = true then
      (c.subtypesOf t).findSome? (·.field? name) else none) = none := by
    split
    · rename_i hallowed
      rw [List.findSome?_eq_none_iff]
      intro s hs
      rw [DocumentType.field?, List.find?_eq_none]
      exact fun g hg => by simpa using h.inherited hallowed s hs g hg
    · rfl
  simp only [Catalog.fieldOn, hself, hfield, hstored, Option.none_or, hinherited, h.isDynamic,
    ↓reduceIte]
  rfl

end Catalog

/-- Where a field is found on a type, its storage name finds it again: on the type, and in the items
of a list not as a position. -/
def Field.StaysFound (f : Field) (inItems : Bool) (t : DocumentType) : Prop :=
  t.FindsAgain f ∧ (inItems = true → isPositional f.storageName = false)

/-! ### Steps -/

namespace Kind

variable {c : Catalog} {path segment name : String} {kind base : Kind} {e : PathElement}
  {next g : Field}

/-- The field that a name is below a kind that is no list. -/
inductive Names (c : Catalog) (segment : String) : Kind → Field → Prop
  | declared {t : DocumentType} {g : Field} (h : c.fieldOn t segment = .ok g) :
      Names c segment (.embedded t) g
  | anything (h : isIndex segment = false) : Names c segment (.scalar .any) (.any segment)
  | key (element : Field) : Names c segment (.dict element) (element.renamed segment)

/-- The element that a segment is below a kind, and the field whose parts come next. -/
inductive Enters (c : Catalog) (segment name : String) : Kind → PathElement → Field → Prop
  | item {element : Field} (h : isPositional segment = true) :
      Enters c segment name (.list element) (.position (positionSegment segment)) element
  | index (h : isIndex segment = true) :
      Enters c segment name (.scalar .any) (.position segment) (.any name)
  | named {kind base : Kind} {g : Field} (haround : kind.Around base)
      (hitems : kind.isList = true → isPositional segment = false) (h : base.Names c segment g) :
      Enters c segment name kind (.field g) g

theorem Names.isList (h : base.Names c segment g) : base.isList = false := by
  cases h <;> rfl

/-- Below its lists a kind is one kind. -/
theorem Around.unique {inner : Kind} (h : kind.Around base) (h' : kind.Around inner)
    (hbase : base.isList = false) (hinner : inner.isList = false) : base = inner := by
  induction h with
  | same kind =>
    cases h' with
    | same => rfl
    | list => cases hbase
  | list _ ih =>
    cases h' with
    | same => cases hinner
    | list h' => exact ih h' hbase

theorem enter_of_names (h : base.Names c segment g) (path name : String) :
    base.enter c path segment name = .ok (.field g, g) := by
  cases h with
  | declared h =>
    rw [enter, h]
    rfl
  | anything h => simp only [enter, h, Bool.false_eq_true, ↓reduceIte]; rfl
  | key element => rfl

/-- The parts of a step are those that it is made of. -/
theorem enter_of_enters (h : kind.Enters c segment name e next) :
    kind.enter c path segment name = .ok (e, next) := by
  cases h with
  | item h => simp only [enter, h, ↓reduceIte]; rfl
  | index h => simp only [enter, h, ↓reduceIte]; rfl
  | named haround hitems h =>
    cases haround with
    | same => exact enter_of_names h path name
    | list haround =>
      exact enter_around (.list haround) (hitems rfl) (enter_of_names h path name) path name

end Kind

mutual

/-- What a segment is below a field. -/
theorem Field.enters_of_enter {c : Catalog} {path segment : String} :
    ∀ {f : Field} {e : PathElement} {next : Field}, f.enter c path segment = .ok (e, next) →
      f.kind.Enters c segment f.name e next
  | ⟨name, _, _, kind, _, _⟩, _, _, h => by
    simp only [Field.enter] at h
    exact Kind.enters_of_enter h
termination_by structural f => f

/-- What a segment is below a kind. -/
theorem Kind.enters_of_enter {c : Catalog} {path segment name : String} :
    ∀ {kind : Kind} {e : PathElement} {next : Field},
      kind.enter c path segment name = .ok (e, next) → kind.Enters c segment name e next
  | .list element, e, next, h => by
    simp only [Kind.enter] at h
    split at h
    · rename_i hpositional
      obtain ⟨rfl, rfl⟩ := Prod.mk.inj (Except.ok.inj h)
      exact .item hpositional
    · rename_i hpositional
      have hname : isPositional segment = false := by simpa using hpositional
      have hitem := Field.enters_of_enter h
      generalize hkind : element.kind = kind at hitem
      cases hitem with
      | item hmark => exact absurd hmark hpositional
      | index hindex => exact absurd (isPositional_of_isIndex hindex) hpositional
      | named haround _ hnames => exact .named (.list (hkind ▸ haround)) (fun _ => hname) hnames
  | .embedded t, e, next, h => by
    simp only [Kind.enter] at h
    cases hfield : c.fieldOn t segment with
    | error cause =>
      rw [hfield] at h
      cases h
    | ok g =>
      rw [hfield] at h
      obtain ⟨rfl, rfl⟩ := Prod.mk.inj (Except.ok.inj h)
      exact .named (.same _) nofun (.declared hfield)
  | .scalar s, e, next, h => by
    cases s with
    | any =>
      simp only [Kind.enter] at h
      split at h
      · rename_i hindex
        obtain ⟨rfl, rfl⟩ := Prod.mk.inj (Except.ok.inj h)
        exact .index hindex
      · rename_i hindex
        obtain ⟨rfl, rfl⟩ := Prod.mk.inj (Except.ok.inj h)
        exact .named (.same _) nofun (.anything (by simpa using hindex))
    | _ => cases h
  | .reference _, _, _, h => by cases h
  | .genericReference, _, _, h => by cases h
  | .dict element, e, next, h => by
    obtain ⟨rfl, rfl⟩ := Prod.mk.inj (Except.ok.inj h)
    exact .named (.same _) nofun (.key element)
termination_by structural k => k

end

namespace Kind

variable {c : Catalog} {path segment name : String} {kind base : Kind} {e : PathElement}
  {next next' g : Field}

/-- The field whose parts come next is told by the element. -/
theorem Enters.next_eq {other : String} (h : kind.Enters c segment name e next)
    (h' : kind.Enters c other name e next') : next' = next := by
  cases h with
  | item =>
    generalize hmark : PathElement.position (positionSegment segment) = e at h'
    cases h' with
    | item => rfl
    | named => cases hmark
  | index => cases h'; rfl
  | named => cases h'; rfl

theorem Enters.next_of_field (h : kind.Enters c segment name (.field g) next) : next = g := by
  cases h
  rfl

/-- A segment has one element. -/
theorem Enters.unique {e' : PathElement} (h : kind.Enters c segment name e next)
    (h' : kind.Enters c segment name e' next') : e = e' ∧ next = next' := by
  have hfirst : kind.enter c segment segment name = .ok (e, next) := enter_of_enters h
  exact Prod.mk.inj (Except.ok.inj (hfirst.symm.trans (enter_of_enters h')))

theorem positionSegment_again (h : isPositional segment = true) :
    isPositional (positionSegment segment) = true ∧
      positionSegment (positionSegment segment) = positionSegment segment := by
  unfold positionSegment
  by_cases hmark : segment = "S"
  · subst hmark
    decide
  · simp only [hmark, ↓reduceIte]
    exact ⟨h, trivial⟩

/-- A name below a kind that is no list is the name of its storage name, too, exactly if a type that
is the kind finds the field again. -/
theorem Names.again_iff (h : base.Names c segment g)
    (hbuilt : ∀ t, base = .embedded t → t.Built) :
    base.Names c g.storageName g ↔ ∀ t, base = .embedded t → t.FindsAgain g := by
  cases h with
  | @declared t g hfield =>
    have hagain := Catalog.fieldOn_storageName_iff (hbuilt t rfl) hfield
    constructor
    · intro hnames t' ht
      obtain rfl := Kind.embedded.inj ht
      cases hnames with
      | declared hsame => exact hagain.mp hsame
    · exact fun hfinds => .declared (hagain.mpr (hfinds t rfl))
  | anything hindex => exact iff_of_true (.anything hindex) nofun
  | key element => exact iff_of_true (.key element) nofun

/-- **A step is taken again by its storage name**, exactly if what it stands for is found again. -/
theorem Enters.again_iff (h : kind.Enters c segment name e next)
    (hbuilt : ∀ t g, kind.Around (.embedded t) → e = .field g → t.Built) :
    kind.Enters c e.storageName name e next ↔
      ∀ t g, kind.Around (.embedded t) → e = .field g → g.StaysFound kind.isList t := by
  cases h with
  | item hmark =>
    obtain ⟨hagain, hsame⟩ := positionSegment_again hmark
    refine iff_of_true ?_ nofun
    have hitem : (Kind.list next).Enters c (positionSegment segment) name
        (.position (positionSegment (positionSegment segment))) next := .item hagain
    rwa [hsame] at hitem
  | index hindex => exact iff_of_true (.index hindex) nofun
  | @named _ base g haround hitems hnames =>
    have hbase : ∀ {t}, kind.Around (.embedded t) → base = .embedded t := fun ht =>
      haround.unique ht hnames.isList rfl
    have hagain := hnames.again_iff fun t ht => hbuilt t next (ht ▸ haround) rfl
    constructor
    · intro hsame t g ht hg
      obtain rfl := PathElement.field.inj hg
      cases hsame with
      | named haround' hitems' hnames' =>
        rw [haround'.unique haround hnames'.isList hnames.isList] at hnames'
        exact ⟨hagain.mp hnames' t (hbase ht), hitems'⟩
    · intro hstays
      have hitems' : kind.isList = true → isPositional next.storageName = false := by
        cases hnames with
        | declared => exact (hstays _ _ haround rfl).2
        | anything => exact hitems
        | key => exact hitems
      refine .named haround hitems' (hagain.mpr ?_)
      rintro t rfl
      exact (hstays t next haround rfl).1

/-- A name that a dynamic type knows nothing of is a step into what holds anything. -/
theorem enters_of_leavesOpen {t : DocumentType} (haround : kind.Around (.embedded t))
    (hitems : kind.isList = true → isPositional segment = false) (h : c.LeavesOpen t segment) :
    kind.Enters c segment name (.field (.any segment)) (.any segment) :=
  .named haround hitems (.declared h.fieldOn)

end Kind

/-! ### Ways -/

namespace Field

variable {c : Catalog} {path quoted segment : String} {segments : List String} {f : Field}
  {elements : List PathElement}

theorem enter_iff {e : PathElement} {next : Field} :
    f.enter c path segment = .ok (e, next) ↔ f.kind.Enters c segment f.name e next := by
  refine ⟨enters_of_enter, fun h => ?_⟩
  rw [enter_eq]
  exact Kind.enter_of_enters h

/-- The fields that are found on types on the way down some segments, with their types and whether
they are in the items of a list. -/
inductive Meets (c : Catalog) : Field → List String → Bool → DocumentType → Field → Prop
  | here {f g : Field} {t : DocumentType} {segment : String} {rest : List String}
      (haround : f.kind.Around (.embedded t))
      (h : f.kind.Enters c segment f.name (.field g) g) :
      Meets c f (segment :: rest) f.kind.isList t g
  | later {f next g : Field} {e : PathElement} {t : DocumentType} {segment : String}
      {rest : List String} {inItems : Bool} (henter : f.kind.Enters c segment f.name e next)
      (h : Meets c next rest inItems t g) : Meets c f (segment :: rest) inItems t g

theorem meets_of_field {e : PathElement} {next g : Field} {t : DocumentType} {rest : List String}
    (henter : f.kind.Enters c segment f.name e next) (haround : f.kind.Around (.embedded t))
    (hg : e = .field g) : f.Meets c (segment :: rest) f.kind.isList t g := by
  subst hg
  obtain rfl := henter.next_of_field
  exact .here haround henter

/-- A way begins with a step. -/
theorem walk_cons_eq_ok {rest : List String} : f.walk c path (segment :: rest) = .ok elements ↔
    ∃ e next es, f.kind.Enters c segment f.name e next ∧ next.walk c path rest = .ok es ∧
      elements = e :: es := by
  simp only [walk]
  constructor
  · intro h
    obtain ⟨⟨e, next⟩, henter, h⟩ := bind_eq_ok.mp h
    obtain ⟨es, hes, h⟩ := bind_eq_ok.mp h
    exact ⟨e, next, es, enters_of_enter henter, hes, (Except.ok.inj h).symm⟩
  · rintro ⟨e, next, es, henter, hes, rfl⟩
    exact bind_eq_ok.mpr ⟨_, enter_iff.mpr henter, bind_eq_ok.mpr ⟨_, hes, rfl⟩⟩

/-- **A way is gone again by the storage names**, exactly if all fields on it are found again. -/
theorem walk_again_iff (h : f.walk c path segments = .ok elements)
    (hbuilt : ∀ i t g, f.Meets c segments i t g → t.Built) :
    f.walk c quoted (elements.map PathElement.storageName) = .ok elements ↔
      ∀ i t g, f.Meets c segments i t g → g.StaysFound i t := by
  induction segments generalizing f elements with
  | nil =>
    obtain rfl := Except.ok.inj h
    exact iff_of_true rfl nofun
  | cons segment rest ih =>
    obtain ⟨e, next, es, henter, hes, rfl⟩ := walk_cons_eq_ok.mp h
    have hstep := henter.again_iff fun t g ht hg => hbuilt _ t g (meets_of_field henter ht hg)
    have hrest := ih hes fun i t g hmeets => hbuilt i t g (.later henter hmeets)
    rw [List.map_cons, walk_cons_eq_ok]
    constructor
    · rintro ⟨e', next', es', henter', hes', heq⟩ i t g hmeets
      obtain ⟨rfl, rfl⟩ := List.cons.inj heq
      obtain rfl := henter.next_eq henter'
      cases hmeets with
      | here ht hg => exact hstep.mp henter' t g ht (henter.unique hg).1
      | later hother hmeets =>
        obtain ⟨-, rfl⟩ := henter.unique hother
        exact hrest.mp hes' i t g hmeets
    · intro hstays
      exact ⟨e, next, es, hstep.mpr fun t g ht hg => hstays _ t g (meets_of_field henter ht hg),
        hrest.mpr fun i t g hmeets => hstays i t g (.later henter hmeets), rfl⟩

/-- Below a field that holds anything every way is stored as it is spelled. -/
theorem walk_any (c : Catalog) (path name : String) (names : List String) :
    ∃ elements, (Field.any name).walk c path names = .ok elements ∧
      elements.map PathElement.storageName = names := by
  induction names generalizing name with
  | nil => exact ⟨[], rfl, rfl⟩
  | cons s names ih =>
    by_cases hindex : isIndex s = true
    · obtain ⟨es, hes, hnames⟩ := ih name
      exact ⟨_, walk_cons_eq_ok.mpr ⟨_, _, es, .index hindex, hes, rfl⟩, by
        rw [List.map_cons, hnames]
        rfl⟩
    · obtain ⟨es, hes, hnames⟩ := ih s
      have henter : (Field.any name).kind.Enters c s name (.field (.any s)) (.any s) :=
        .named (.same _) nofun (.anything (by simpa using hindex))
      exact ⟨_, walk_cons_eq_ok.mpr ⟨_, _, es, henter, hes, rfl⟩, by
        rw [List.map_cons, hnames]
        rfl⟩

/-- **A way is stored alike by the storage names** if all fields on it are found again, or their
type is dynamic and knows nothing of the storage name. -/
theorem walk_alike (h : f.walk c path segments = .ok elements)
    (hbuilt : ∀ i t g, f.Meets c segments i t g → t.Built)
    (hstays : ∀ i t g, f.Meets c segments i t g → g.StaysFound i t ∨
      c.LeavesOpen t g.storageName ∧ (i = true → isPositional g.storageName = false)) :
    ∃ elements', f.walk c quoted (elements.map PathElement.storageName) = .ok elements' ∧
      elements'.map PathElement.storageName = elements.map PathElement.storageName := by
  induction segments generalizing f elements with
  | nil =>
    obtain rfl := Except.ok.inj h
    exact ⟨[], rfl, rfl⟩
  | cons segment rest ih =>
    obtain ⟨e, next, es, henter, hes, rfl⟩ := walk_cons_eq_ok.mp h
    by_cases hagain : f.kind.Enters c e.storageName f.name e next
    · obtain ⟨es', hes', hnames⟩ := ih hes (fun i t g hmeets => hbuilt i t g (.later henter hmeets))
        fun i t g hmeets => hstays i t g (.later henter hmeets)
      exact ⟨_, walk_cons_eq_ok.mpr ⟨e, next, es', hagain, hes', rfl⟩, by
        rw [List.map_cons, List.map_cons, hnames]⟩
    · obtain ⟨t, g, haround, hg, hlost⟩ : ∃ t g, f.kind.Around (.embedded t) ∧ e = .field g ∧
          ¬ g.StaysFound f.kind.isList t := by
        rw [henter.again_iff fun t g ht hg => hbuilt _ t g (meets_of_field henter ht hg)] at hagain
        push Not at hagain
        exact hagain
      have hmeets : f.Meets c (segment :: rest) f.kind.isList t g :=
        meets_of_field henter haround hg
      obtain ⟨hopen, hitems⟩ := (hstays _ t g hmeets).resolve_left hlost
      subst hg
      obtain ⟨es', hes', hnames⟩ :=
        walk_any c quoted g.storageName (es.map PathElement.storageName)
      have hany : f.kind.Enters c g.storageName f.name (.field (.any g.storageName))
          (.any g.storageName) := Kind.enters_of_leavesOpen haround hitems hopen
      exact ⟨_, walk_cons_eq_ok.mpr ⟨_, _, es', hany, hes', rfl⟩, by
        rw [List.map_cons, List.map_cons, hnames]
        rfl⟩

end Field

/-! ### Paths -/

namespace Catalog

variable {c : Catalog} {t : DocumentType} {segments : List String} {elements : List PathElement}

/-- The fields that are found on types on a path, with their types and whether they are in the items
of a list. -/
def Meets (c : Catalog) (t : DocumentType) (segments : List String) (inItems : Bool)
    (u : DocumentType) (f : Field) : Prop :=
  (Field.ofKind "" (.embedded t)).Meets c segments inItems u f

/-- A path is a way down from a field that embeds the type. -/
theorem resolve_eq_walk (c : Catalog) (t : DocumentType) (segments : List String) :
    c.resolve t segments =
      (Field.ofKind "" (.embedded t)).walk c (joinStrings "__" segments) segments := by
  cases segments with
  | nil => rfl
  | cons segment rest =>
    simp only [resolve, Field.walk, Field.enter_eq, Field.ofKind, Kind.enter]
    cases c.fieldOn t segment <;> rfl

/-- **The stored path of a path, resolved again.** The same elements are found exactly if there are
any, no storage name among them has a point, and all fields that are found on types on the way are
found again. The same path in the store is found, too, where a type does not find a field again but
is dynamic and knows nothing of the storage name. -/
theorem resolve_storagePath (h : c.resolve t segments = .ok elements)
    (hbuilt : ∀ i u f, c.Meets t segments i u f → u.Built) :
    (c.resolve t (dottedSegments (storagePath elements)) = .ok elements ↔
      segments ≠ [] ∧ (∀ e ∈ elements, IsSegment e.storageName) ∧
        ∀ i u f, c.Meets t segments i u f → f.StaysFound i u) ∧
    (segments ≠ [] → (∀ e ∈ elements, IsSegment e.storageName) →
      (∀ i u f, c.Meets t segments i u f → f.StaysFound i u ∨
        c.LeavesOpen u f.storageName ∧ (i = true → isPositional f.storageName = false)) →
      ∃ elements', c.resolve t (dottedSegments (storagePath elements)) = .ok elements' ∧
        storagePath elements' = storagePath elements) := by
  have hlength := length_resolve h
  have hnames : ∀ {es : List PathElement}, (∀ e ∈ es, IsSegment e.storageName) →
      ∀ s ∈ es.map PathElement.storageName, IsSegment s := by
    intro es hes s hs
    obtain ⟨e, he, rfl⟩ := List.mem_map.mp hs
    exact hes e he
  have hne : segments ≠ [] → elements.map PathElement.storageName ≠ [] := by
    intro hsegments hnil
    rw [List.map_eq_nil_iff.mp hnil] at hlength
    exact hsegments (List.length_eq_zero_iff.mp hlength.symm)
  have hsame : segments ≠ [] → (∀ e ∈ elements, IsSegment e.storageName) →
      dottedSegments (storagePath elements) = elements.map PathElement.storageName :=
    fun hsegments hes => dottedSegments_dotted (hne hsegments) (hnames hes)
  rw [resolve_eq_walk] at h
  refine ⟨⟨fun hagain => ?_, ?_⟩, ?_⟩
  · have hcount := length_resolve hagain
    have hsegments : segments ≠ [] := by
      rintro rfl
      have hsome := List.length_pos_of_ne_nil (dottedSegments_ne_nil (storagePath elements))
      rw [← hcount, hlength] at hsome
      exact absurd hsome (by decide)
    have hparts := dottedSegments_dotted_parts (hne hsegments)
    have hkept := eq_of_flatMap_dottedSegments hparts.symm (by rw [List.length_map]; exact hcount)
    have hes : ∀ e ∈ elements, IsSegment e.storageName := fun e he =>
      isSegment_of_mem_dottedSegments (hkept ▸ List.mem_map_of_mem he)
    rw [resolve_eq_walk, hsame hsegments hes] at hagain
    exact ⟨hsegments, hes, (Field.walk_again_iff h hbuilt).mp hagain⟩
  · rintro ⟨hsegments, hes, hstays⟩
    rw [resolve_eq_walk, hsame hsegments hes]
    exact (Field.walk_again_iff h hbuilt).mpr hstays
  · intro hsegments hes hstays
    rw [hsame hsegments hes]
    simp only [resolve_eq_walk]
    obtain ⟨elements', hwalk, halike⟩ := Field.walk_alike h hbuilt hstays
    exact ⟨elements', hwalk, congrArg dotted halike⟩

end Catalog

/-! ### Vehicles -/

/-- The field of the goal of a trip. -/
def goalField : Field := { Field.ofKind "goal" (.scalar .string) with storageName := "g" }

/-- A trip has a goal, which is stored as `g`. -/
def tripType : DocumentType where
  name := "Trip"
  className := "Trip"
  collection := none
  fields := [goalField]
  primaryKey := none
  isDynamic := false
  allowsInheritance := false
  superclass := none

/-- The field of the trips of a vehicle. -/
def tripsField : Field := .list "trips" (.embedded tripType)

/-- Vehicles make trips. There can be types below them. -/
def vehicleType : DocumentType where
  name := "Vehicle"
  className := "Vehicle"
  collection := some "vehicles"
  fields := [{ Field.ofKind "id" (.scalar .objectId) with storageName := idKey }, tripsField]
  primaryKey := some "id"
  isDynamic := false
  allowsInheritance := true
  superclass := none

/-- The field of the load of a truck. -/
def loadField : Field := { Field.ofKind "load" (.scalar .int) with storageName := "ld" }

/-- Trucks are vehicles with a load, which is stored as `ld`. -/
def truckType : DocumentType :=
  { vehicleType with
    name := "Truck"
    className := "Vehicle.Truck"
    fields := vehicleType.fields ++ [loadField]
    superclass := some "Vehicle" }

/-- A catalog of vehicles and trucks. -/
def vehicles : Catalog :=
  truckType.enroll (vehicleType.enroll .empty)

theorem vehicleTypes_built : tripType.Built ∧ vehicleType.Built ∧ truckType.Built := by
  let vehicle : Declaration := (Declaration.document "Vehicle").inCollection "vehicles"
  exact ⟨⟨(Declaration.embedded "Trip").withField goalField, rfl⟩,
    ⟨(vehicle.withField tripsField).inheritable, rfl⟩,
    ⟨(Declaration.subtype "Truck" vehicleType).withField loadField, rfl⟩⟩

theorem vehicles_registered : vehicles.Registered := by
  obtain ⟨htrip, hvehicle, htruck⟩ := vehicleTypes_built
  have htrips : tripType.AllDeclared := ⟨⟨htrip, by decide, .inl ⟨rfl, rfl⟩⟩, trivial, trivial⟩
  have hvehicles : vehicleType.AllDeclared :=
    ⟨⟨hvehicle, by decide, .inl ⟨rfl, rfl⟩⟩, trivial, htrips, trivial⟩
  have htrucks : truckType.AllDeclared :=
    ⟨⟨htruck, by decide, .inr ⟨vehicleType, rfl, rfl⟩⟩, trivial, htrips, trivial, trivial⟩
  have hfirst : (vehicleType.enroll .empty).Registered := .register .empty hvehicles rfl
  exact .register hfirst htrucks rfl

/-- A path through the trips of a vehicle meets the two fields. -/
theorem meets_goal {i : Bool} {u : DocumentType} {f : Field}
    (h : vehicles.Meets vehicleType ["trips", "0", "goal"] i u f) :
    (u = vehicleType ∧ f = tripsField ∨ u = tripType ∧ f = goalField) ∧ i = false := by
  have htrips : (Kind.embedded vehicleType).Enters vehicles "trips" "" (.field tripsField)
      tripsField := .named (.same _) nofun (.declared rfl)
  have hitem : tripsField.kind.Enters vehicles "0" "trips" (.position "0")
      (.ofKind "trips" (.embedded tripType)) := .item (by decide)
  have hgoal : (Kind.embedded tripType).Enters vehicles "goal" "trips" (.field goalField)
      goalField := .named (.same _) nofun (.declared rfl)
  cases h with
  | here haround henter =>
    cases haround
    exact ⟨.inl ⟨rfl, PathElement.field.inj (henter.unique htrips).1⟩, rfl⟩
  | later henter h =>
    obtain ⟨-, rfl⟩ := henter.unique htrips
    cases h with
    | here haround henter => cases (henter.unique hitem).1
    | later henter h =>
      obtain ⟨-, rfl⟩ := henter.unique hitem
      cases h with
      | here haround henter =>
        cases haround
        exact ⟨.inr ⟨rfl, PathElement.field.inj (henter.unique hgoal).1⟩, rfl⟩
      | later henter h => cases h

/-- A path through the trips of a vehicle resolves to itself. -/
theorem resolve_storagePath_goal :
    vehicles.resolve vehicleType ["trips", "0", "goal"] =
        .ok [.field tripsField, .position "0", .field goalField] ∧
      vehicles.resolve vehicleType (dottedSegments (storagePath
          [.field tripsField, .position "0", .field goalField])) =
        .ok [.field tripsField, .position "0", .field goalField] := by
  have hresolve : vehicles.resolve vehicleType ["trips", "0", "goal"] =
      .ok [.field tripsField, .position "0", .field goalField] := rfl
  obtain ⟨htrip, hvehicle, -⟩ := vehicleTypes_built
  have htrips : vehicleType.FindsAgain tripsField := by
    refine ⟨fun _ g hg hname => ?_, fun _ => by decide, fun h => absurd ?_ h⟩
    · rcases List.mem_pair.mp hg with rfl | rfl
      · exact absurd hname (by decide)
      · rfl
    · exact List.mem_cons_of_mem _ (List.mem_singleton_self _)
  have hgoal : tripType.FindsAgain goalField := by
    refine ⟨fun _ g hg hname => ?_, fun _ => by decide, fun h => absurd ?_ h⟩
    · obtain rfl := List.mem_singleton.mp hg
      exact absurd hname (by decide)
    · exact List.mem_singleton_self _
  refine ⟨hresolve, (Catalog.resolve_storagePath hresolve fun i u f h => ?_).1.mpr
    ⟨by decide, by decide, fun i u f h => ?_⟩⟩
  · rcases (meets_goal h).1 with ⟨rfl, -⟩ | ⟨rfl, -⟩
    · exact hvehicle
    · exact htrip
  · obtain ⟨⟨rfl, rfl⟩ | ⟨rfl, rfl⟩, rfl⟩ := meets_goal h
    · exact ⟨htrips, nofun⟩
    · exact ⟨hgoal, nofun⟩

/-- The load of a truck is found from the vehicles by its attribute, and not by its storage name. -/
theorem load_not_found_again : ¬ (∀ (c : Catalog) (t : DocumentType) (segments : List String)
    (elements : List PathElement), c.Registered → t.Built → c.resolve t segments = .ok elements →
      ∃ elements', c.resolve t (dottedSegments (storagePath elements)) = .ok elements' ∧
        storagePath elements' = storagePath elements) := by
  intro h
  have hload : vehicles.resolve vehicleType ["load"] = .ok [.field loadField] := rfl
  have hpath : dottedSegments (storagePath [.field loadField]) = ["ld"] := by
    rw [storagePath, List.map_singleton, dotted_singleton]
    exact dottedSegments_of_isSegment (by decide)
  obtain ⟨elements', hagain, -⟩ :=
    h vehicles vehicleType _ _ vehicles_registered vehicleTypes_built.2.1 hload
  rw [hpath] at hagain
  have hunknown : vehicles.resolve vehicleType ["ld"] = .error (.unknown "ld") := rfl
  rw [hunknown] at hagain
  cases hagain

end DocumentMapper
