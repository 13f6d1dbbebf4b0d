import DocumentMapper.Proofs.FieldRules
import DocumentMapper.Proofs.RelatedForms

/-!
# How stored forms are made of parts

The stored form of a list, a dict or a document is made of the stored forms of its parts, each at
the place that the path to it leads to. Two places are exceptions: a list in a field of geometries
becomes an object with the coordinates, and a document in a field of references becomes its key.

The name of the field of a place has no part in this, so that it does not matter that the values of
a dict are described by one element under many names.

## Main results

* `Value.encode_renamed`: the name of a field appears in errors only;
* `Place.gives_list`, `Place.gives_dict`, `Place.gives_document`: the stored form of a value with
  parts;
* `Place.gives_item`, `Place.gives_entry`: where a part of it is stored.
-/

namespace DocumentMapper

open Drawing

/-! ### Names of fields in errors -/

/-- Two computations succeed alike, in their results and in what they draw. -/
def Drawing.Alike {α : Type} (x y : Drawing α) : Prop :=
  ∀ s a t, x.runFrom s = (.ok a, t) ↔ y.runFrom s = (.ok a, t)

namespace Drawing.Alike

variable {α β : Type}

theorem refl (x : Drawing α) : x.Alike x :=
  fun _ _ _ => Iff.rfl

theorem throws (cause cause' : Error) : (throw cause : Drawing α).Alike (throw cause') := by
  intro s a t
  simp

theorem bind {x y : Drawing α} {f g : α → Drawing β} (hx : x.Alike y) (hf : ∀ a, (f a).Alike (g a)) :
    (x >>= f).Alike (y >>= g) := by
  intro s b t
  simp only [runFrom_bind_eq_ok]
  constructor
  · rintro ⟨a, u, ha, hb⟩
    exact ⟨a, u, (hx s a u).mp ha, (hf a u b t).mp hb⟩
  · rintro ⟨a, u, ha, hb⟩
    exact ⟨a, u, (hx s a u).mpr ha, (hf a u b t).mpr hb⟩

theorem gives {x y : Drawing α} (h : x.Alike y) {a : α} (hx : x.Gives a) : y.Gives a := by
  obtain ⟨s, t, hrun⟩ := hx
  exact ⟨s, t, (h s a t).mp hrun⟩

end Drawing.Alike

namespace Field

variable (f : Field) (name : String)

theorem refuse_alike {α : Type} (cause cause' : ValueError) :
    (f.refuse cause : Drawing α).Alike ((f.renamed name).refuse cause') :=
  .throws _ _

theorem check_renamed (v : Value) : (f.check v).Alike ((f.renamed name).check v) := by
  have hvalidator : (f.renamed name).validator = f.validator := rfl
  unfold check
  rw [hvalidator]
  split
  · exact refuse_alike f name _ _
  · exact .refl _

theorem encodeScalar_renamed (s : Scalar) (v : Value) :
    (f.encodeScalar s v).Alike ((f.renamed name).encodeScalar s v) := by
  unfold encodeScalar
  split <;> first | exact .refl _ | exact refuse_alike f name _ _ | skip
  · split
    · exact .refl _
    · exact refuse_alike f name _ _
  · split
    · exact .refl _
    · exact refuse_alike f name _ _

theorem encodeLeaf_renamed (v : Value) : (f.encodeLeaf v).Alike ((f.renamed name).encodeLeaf v) := by
  have hkind : (f.renamed name).kind = f.kind := rfl
  unfold encodeLeaf
  refine .bind (check_renamed f name v) fun _ => ?_
  rw [hkind]
  split
  · exact encodeScalar_renamed f name _ v
  · exact refuse_alike f name _ _
  · unfold encodeId
    split <;> first | exact .refl _ | exact refuse_alike f name _ _
  · unfold encodeGeneric
    split
    · exact .refl _
    · exact refuse_alike f name _ _
  · exact refuse_alike f name _ _
  · exact refuse_alike f name _ _

theorem linkId_renamed (key : Drawing Json) : (f.linkId key).Alike ((f.renamed name).linkId key) := by
  unfold linkId
  refine .bind (.refl _) fun id => ?_
  split
  · exact refuse_alike f name _ _
  · exact .refl _

theorem linkEnvelope_renamed (t : DocumentType) (key : Drawing Json) :
    (f.linkEnvelope t key).Alike ((f.renamed name).linkEnvelope t key) := by
  unfold linkEnvelope
  refine .bind ?_ fun _ => .refl _
  unfold linkParts
  split
  · exact .bind (linkId_renamed f name key) fun _ => .refl _
  · exact refuse_alike f name _ _

theorem encodeEntries_renamed (entries : List (String × Value)) (element : Field) :
    (encodeEntries entries f element).Alike (encodeEntries entries (f.renamed name) element) := by
  induction entries with
  | nil => exact .refl _
  | cons e rest ih =>
    obtain ⟨k, v⟩ := e
    simp only [encodeEntries]
    split
    · exact refuse_alike f name _ _
    · exact .bind (.refl _) fun _ => .bind ih fun _ => .refl _

end Field

/-- A field refuses and checks alike under each name. -/
theorem Field.checkedAlike_renamed (f : Field) (name : String) (v : Value) :
    CheckedAlike Drawing.Alike v v f (f.renamed name) where
  kind := rfl
  refused := f.refuse_alike name
  checked h := .bind (f.check_renamed name v) fun _ => h

/-- **The name of a field has no part in the stored form**, only in errors. -/
theorem Value.encode_renamed (v : Value) (f : Field) (name : String) :
    (v.encode f).Alike (v.encode (f.renamed name)) := by
  have hchecked := f.checkedAlike_renamed name v
  cases v with
  | list items => exact hchecked.list rfl rfl (.refl _) (fun _ => .refl _) fun _ _ => .refl _
  | dict entries =>
    exact hchecked.dict (fun _ => rfl) (.refl _) fun element _ =>
      .bind (f.encodeEntries_renamed name entries element) fun _ => .refl _
  | document doc =>
    exact hchecked.document rfl (.refl _) (f.linkId_renamed name _) (f.linkEnvelope_renamed name _ _)
  | linked doc =>
    exact hchecked.linked (.refl _) (f.linkId_renamed name _) (f.linkEnvelope_renamed name _ _)
  | null => exact .refl _
  | bool | int | float | string | datetime | reference => exact f.encodeLeaf_renamed name _

/-! ### Values on their own -/

/-- A field that holds anything has no objections. -/
theorem gives_bind_check_any {β : Type} {name : String} {v : Value} {x : Unit → Drawing β} {b : β}
    (h : ((Field.any name).check v >>= x).Gives b) : (x ()).Gives b := by
  obtain ⟨u, -, hx⟩ := Gives.of_bind h
  exact hx

/-- What a field for anything stores is what the value stores on its own. -/
theorem Value.plain_of_encode_any {v : Value} {name : String} {j : Json}
    (h : (v.encode (.any name)).Gives j) : v.plain.Gives j := by
  cases v with
  | list items => exact gives_bind_check_any h
  | dict entries => exact gives_bind_check_any h
  | document doc => exact gives_bind_check_any h
  | linked doc => exact gives_bind_check_any h
  | null => exact h
  | bool b => exact gives_bind_check_any h
  | int n => exact gives_bind_check_any h
  | float x => exact gives_bind_check_any h
  | string s => exact gives_bind_check_any h
  | datetime i => exact gives_bind_check_any h
  | reference r => exact gives_bind_check_any h

/-! ### Lists and dicts -/

/-- What is stored for some items has their stored forms, one by one. -/
theorem gives_mapM {items : List Value} {form : Value → Drawing Json} {js : List Json}
    (h : (items.mapM form).Gives js) :
    js.length = items.length ∧
      ∀ i (hi : i < items.length), (form items[i]).Gives (js[i]?.getD .null) := by
  induction items generalizing js with
  | nil =>
    obtain rfl := gives_pure.mp h
    simp
  | cons v vs ih =>
    rw [List.mapM_cons] at h
    obtain ⟨j, hj, hrest⟩ := Gives.of_bind h
    obtain ⟨others, hothers, hjs⟩ := Gives.of_bind hrest
    obtain rfl := gives_pure.mp hjs
    obtain ⟨hlength, hitems⟩ := ih hothers
    refine ⟨by simp [hlength], fun i hi => ?_⟩
    cases i with
    | zero => exact hj
    | succ i => exact hitems i (by simpa using hi)

/-- The entries of an object are what some entries give, key by key. -/
def EntriesGive (entries : List (String × Value)) (form : String → Value → Drawing Json)
    (o : Object) : Prop :=
  ∀ key, match Entries.get? entries key with
    | none => o.get? key = none
    | some v => ∃ j, (form key v).Gives j ∧ o.get? key = some j

theorem EntriesGive.cons {k : String} {v : Value} {rest : List (String × Value)}
    {form : String → Value → Drawing Json} {j : Json} {o : Object} (hj : (form k v).Gives j)
    (h : EntriesGive rest form o) : EntriesGive ((k, v) :: rest) form ((k, j) :: o) := by
  intro key
  by_cases hk : k = key
  · subst hk
    simpa [Entries.get?] using hj
  · simpa [Entries.get?, hk] using h key

theorem EntriesGive.congr {entries : List (String × Value)} {form form' : String → Value → Drawing Json}
    {o : Object} (h : EntriesGive entries form o)
    (hform : ∀ key v, (form key v).Alike (form' key v)) : EntriesGive entries form' o := by
  intro key
  have hkey := h key
  cases hv : Entries.get? entries key with
  | none =>
    rw [hv] at hkey
    exact hkey
  | some v =>
    rw [hv] at hkey
    obtain ⟨j, hj, hget⟩ := hkey
    exact ⟨j, (hform key v).gives hj, hget⟩

/-- What is stored for some entries has their stored forms, key by key. -/
theorem gives_entriesBy {entries : List (String × Value)} {form : Value → Drawing Json} {o : Object}
    (h : (entriesBy form entries).Gives o) : EntriesGive entries (fun _ v => form v) o := by
  induction entries generalizing o with
  | nil =>
    obtain rfl := gives_pure.mp h
    intro key
    rfl
  | cons e rest ih =>
    obtain ⟨k, v⟩ := e
    rw [entriesBy_cons] at h
    obtain ⟨j, hj, hrest⟩ := Gives.of_bind h
    obtain ⟨others, hothers, ho⟩ := Gives.of_bind hrest
    obtain rfl := gives_pure.mp ho
    exact .cons hj (ih hothers)

/-! ### Declared fields -/

/-- A declared field stores what its value or its default is encoded to, unless it is a primary key
that would be null. -/
theorem assembleFields_cons (f : Field) (fs : List Field) (key : Option String)
    (encoders : List (String × Encoder)) (p : Patch) :
    assembleFields (f :: fs) key encoders p =
      (match encoderOf encoders f.name with
        | some encode => encode f
        | none => f.encodeDefault) >>= fun j =>
      if j.isNull && key == some f.name then assembleFields fs key encoders p
      else assembleFields fs key encoders (p.put f.storageName j) := by
  simp only [assembleFields]
  cases encoderOf encoders f.name <;> rfl

/-! ### Places -/

namespace Place

/-- A place where the stored form does not have the parts of the value: a list that is stored as a
geometry, or a document that is stored by its key. -/
inductive Opaque : Place → Prop
  | geometry {f : Field} {items : List Value} (h : f.geometryType?.isSome) :
      Opaque ⟨some f, some (.list items)⟩
  | reference {f : Field} {doc : Document} (h : f.kind.isReference = true) :
      Opaque ⟨some f, some (.document doc)⟩

/-- A missing value and null are stored as null. -/
theorem eq_null_of_missing {f : Option Field} {o : Option Value} {j : Json}
    (hmissing : o = none ∨ o = some .null) (h : (Place.mk f o).toJson.Gives j) : j = .null := by
  rcases hmissing with rfl | rfl
  · exact gives_pure.mp h
  · cases f with
    | none => exact gives_pure.mp h
    | some f => exact gives_pure.mp h

/-- **The stored form of a list** has those of the items, in a geometry as its coordinates. -/
theorem gives_list {f : Option Field} {items : List Value} {j : Json}
    (h : (Place.mk f (some (.list items))).toJson.Gives j) :
    ∃ js : List Json, js.length = items.length ∧
      (∀ i (hi : i < items.length),
        (Place.mk (f.bind (·.kind.element?)) (some items[i])).toJson.Gives (js[i]?.getD .null)) ∧
      j = match f.bind Field.geometryType? with
        | some type => geometry type (.array js)
        | none => .array js := by
  have hf := takes_list h
  rw [toJson_list (fun g hg => (hf g hg).1) fun g hg => (hf g hg).2] at h
  obtain ⟨js, hjs, hj⟩ := Gives.of_bind h
  obtain ⟨hlength, hitems⟩ := gives_mapM hjs
  exact ⟨js, hlength, hitems, gives_pure.mp hj⟩

/-- The name of a field has no part in what stands at a place. -/
theorem toJson_renamed (f : Option Field) (v : Value) (name : String) :
    (Place.mk f (some v)).toJson.Alike (Place.mk (f.map (·.renamed name)) (some v)).toJson := by
  cases f with
  | none => exact .refl _
  | some f => exact v.encode_renamed f name

/-- **The stored form of a dict** has those of its values under the same keys. -/
theorem gives_dict {f : Option Field} {entries : List (String × Value)} {j : Json}
    (h : (Place.mk f (some (.dict entries))).toJson.Gives j) :
    ∃ o : Object, j = .object o ∧ EntriesGive entries
      (fun key v => (Place.mk ((f.bind (·.kind.element?)).map (·.renamed key)) (some v)).toJson) o := by
  have hf := takes_dict h
  rw [toJson_dict (fun g hg => (hf g hg).1) fun g hg => (hf g hg).2] at h
  obtain ⟨o, ho, hj⟩ := Gives.of_bind h
  exact ⟨o, gives_pure.mp hj, (gives_entriesBy ho).congr fun key v => toJson_renamed _ v key⟩

/-- An item of a list, if there is one, is stored at its position, unless the list is a geometry. -/
theorem gives_item {f : Option Field} {items : List Value} {j : Json}
    (h : (Place.mk f (some (.list items))).toJson.Gives j)
    (hclosed : ¬ Opaque ⟨f, some (.list items)⟩) (s : String) :
    ((Place.mk f (some (.list items))).enter s).1.toJson.Gives ((j.child? s).getD .null) := by
  obtain ⟨js, hlength, hitems, hform⟩ := gives_list h
  have hgeometry : f.bind Field.geometryType? = none := by
    cases f with
    | none => rfl
    | some g =>
      rw [Option.bind_some]
      cases hg : g.geometryType? with
      | none => rfl
      | some t => exact absurd (.geometry (by rw [hg]; rfl)) hclosed
  rw [hgeometry] at hform
  subst hform
  simp only [enter, Json.child?]
  cases hs : Text.position? s with
  | none => exact gives_pure.mpr rfl
  | some i =>
    simp only [Option.bind_some]
    by_cases hi : i < items.length
    · rw [List.getElem?_eq_getElem hi]
      exact hitems i hi
    · rw [List.getElem?_eq_none (by omega), List.getElem?_eq_none (by omega)]
      exact gives_pure.mpr rfl

/-- The value of a key, if there is one, is stored under it. -/
theorem gives_entry {f : Option Field} {entries : List (String × Value)} {j : Json}
    (h : (Place.mk f (some (.dict entries))).toJson.Gives j) (s : String) :
    ((Place.mk f (some (.dict entries))).enter s).1.toJson.Gives ((j.child? s).getD .null) := by
  obtain ⟨o, rfl, hentries⟩ := gives_dict h
  have hkey := hentries s
  simp only [enter, Json.child?]
  cases hv : Entries.get? entries s with
  | none =>
    rw [hv] at hkey
    rw [hkey]
    exact gives_pure.mpr rfl
  | some v =>
    rw [hv] at hkey
    obtain ⟨j, hj, hget⟩ := hkey
    rw [hget]
    exact hj

/-- **The stored form of a document** is made of its attributes, unless it is stored by its key. -/
theorem gives_document {f : Option Field} {doc : Document} {j : Json}
    (h : (Place.mk f (some (.document doc))).toJson.Gives j)
    (hclosed : ¬ Opaque ⟨f, some (.document doc)⟩) :
    ∃ patch, doc.fullPatch.Gives patch ∧ j = .object patch.sets := by
  have hwhole : (do return .object (← doc.fullPatch).sets : Drawing Json).Gives j →
      ∃ patch, doc.fullPatch.Gives patch ∧ j = .object patch.sets := by
    intro h
    obtain ⟨patch, hpatch, hj⟩ := Gives.of_bind h
    exact ⟨patch, hpatch, gives_pure.mp hj⟩
  cases f with
  | none => exact hwhole h
  | some f =>
    obtain ⟨-, -, hform⟩ := Gives.of_bind h
    cases hkind : f.kind with
    | scalar s =>
      simp only [hkind] at hform
      split at hform
      · exact hwhole hform
      · exact absurd hform not_gives_throw
    | embedded t =>
      simp only [hkind] at hform
      split at hform
      · exact hwhole hform
      · exact absurd hform not_gives_throw
    | reference | genericReference => exact absurd (.reference (by rw [hkind]; rfl)) hclosed
    | list | dict =>
      simp only [hkind] at hform
      exact absurd hform not_gives_throw

end Place

end DocumentMapper
