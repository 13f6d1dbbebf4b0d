import DocumentMapper.Proofs.Faithfulness

/-!
# The patch of what changed agrees with the whole stored form

Storing a document as a whole goes down from each value to its parts. The patch of what changed
follows each changed path down on its own and stores what it finds at the end. Both come to the
same: under the path in the store, the patch sets what the whole stored form has there, or removes
what it does not have.

This is so for a path that enters lists, dicts and documents which are stored with their parts, not
geometries and references (`Place.Walks`). The names in the store have to be plain: paths of one
segment, not the one of the class, and no two alike. And what lives at the end of the path has one
stored form: a generated default differs from one encoding to the next.

## Main results

* `Place.prefix_of_follow`: a path that begins another one in the store does so in the document;
* `Place.Walks.gives`: the stored form at the end of a path is part of the one at its start;
* `Place.Walks.injective`: no other changed path leads to the same place in the store;
* `Document.incrementalPatch_agrees`: the patch holds what the stored form holds.
-/

namespace DocumentMapper

open Text Drawing

/-! ### Values without parts -/

/-- A value that is stored without parts. -/
def Value.IsScalar : Value → Prop
  | .list _ | .dict _ | .document _ | .reference _ | .linked _ => False
  | _ => True

theorem Value.IsScalar.isLeaf {v : Value} (h : v.IsScalar) : v.IsLeaf := by
  cases v <;> trivial

/-- A stored value that no path leads into. -/
def Json.Partless (j : Json) : Prop :=
  ∀ segment, j.child? segment = none

theorem Json.partless_null : Json.null.Partless := fun _ => rfl

theorem Number.Double.partless_toJson {x : Double} {j : Json} (h : x.toJson.Gives j) :
    j.Partless := by
  unfold toJson at h
  split at h
  · obtain rfl := gives_pure.mp h
    exact fun _ => rfl
  · exact absurd h not_gives_throw

/-- A value without parts is stored without parts. -/
theorem Value.partless_leafJson {v : Value} (hv : v.IsScalar) {j : Json} (h : v.leafJson.Gives j) :
    j.Partless := by
  cases v with
  | float x => exact x.partless_toJson h
  | list | dict | document | reference | linked => exact absurd hv id
  | null | bool | int | string | datetime =>
    obtain rfl := gives_pure.mp h
    exact fun _ => rfl

/-- A scalar field stores a value without parts without parts. -/
theorem Field.partless_encodeScalar {f : Field} {s : Scalar} {v : Value} (hv : v.IsScalar) {j : Json}
    (h : (f.encodeScalar s v).Gives j) : j.Partless := by
  unfold encodeScalar at h
  split at h
  · exact v.partless_leafJson hv h
  · obtain rfl := gives_pure.mp h
    exact fun _ => rfl
  · obtain rfl := gives_pure.mp h
    exact fun _ => rfl
  · split at h
    · obtain rfl := gives_pure.mp h
      exact fun _ => rfl
    · exact absurd h not_gives_throw
  · exact Number.Double.partless_toJson h
  · exact Number.Double.partless_toJson h
  · obtain rfl := gives_pure.mp h
    exact fun _ => rfl
  · obtain rfl := gives_pure.mp h
    exact fun _ => rfl
  · split at h
    · obtain rfl := gives_pure.mp h
      exact fun _ => rfl
    · exact absurd h not_gives_throw
  · obtain rfl := gives_pure.mp h
    exact fun _ => rfl
  · obtain rfl := gives_pure.mp h
    exact fun _ => rfl
  · exact absurd h not_gives_throw

/-- Every field stores a value without parts without parts. -/
theorem Field.partless_encodeLeaf {f : Field} {v : Value} (hv : v.IsScalar) {j : Json}
    (h : (f.encodeLeaf v).Gives j) : j.Partless := by
  obtain ⟨-, -, hform⟩ := Gives.of_bind h
  cases hkind : f.kind with
  | scalar s =>
    rw [hkind] at hform
    exact f.partless_encodeScalar hv hform
  | reference t =>
    rw [hkind] at hform
    cases v with
    | string | int =>
      obtain rfl := gives_pure.mp hform
      exact fun _ => rfl
    | list | dict | document | reference | linked => exact absurd hv id
    | null | bool | float | datetime => exact absurd hform not_gives_throw
  | genericReference =>
    rw [hkind] at hform
    cases v with
    | list | dict | document | reference | linked => exact absurd hv id
    | null | bool | int | float | string | datetime => exact absurd hform not_gives_throw
  | embedded | list | dict =>
    rw [hkind] at hform
    exact absurd hform not_gives_throw

/-- Where nothing with parts lives, nothing with parts is stored. -/
theorem Place.partless {p : Place} (hp : ∀ v, p.value = some v → v.IsScalar) {j : Json}
    (h : p.toJson.Gives j) : j.Partless := by
  obtain ⟨f, v⟩ := p
  cases v with
  | none =>
    obtain rfl := gives_pure.mp h
    exact Json.partless_null
  | some v =>
    have hv := hp v rfl
    cases f with
    | none =>
      have hleaf : v.plain = v.leafJson := by
        cases v <;> first | rfl | exact absurd hv id
      have hplain : v.plain.Gives j := h
      rw [hleaf] at hplain
      exact v.partless_leafJson hv hplain
    | some f =>
      have hencode : (v.encode f).Gives j := h
      by_cases hnull : v = .null
      · subst hnull
        obtain rfl := gives_pure.mp hencode
        exact Json.partless_null
      · have hleaf : v.encode f = f.encodeLeaf v := by
          cases v <;> first | rfl | exact absurd hv id | exact absurd rfl hnull
        rw [hleaf] at hencode
        exact f.partless_encodeLeaf hv hencode

/-! ### Plain names -/

/-- What the names of a document have to be like, together with the names that changed paths reach
from it: storage names are paths of one segment, no name is the one of the class, and a name that is
not declared is not spelled like the storage name of a declared attribute. -/
structure Document.PlainlyNamed (doc : Document) (reached : String → Prop) : Prop where
  built : doc.type.Built
  keys : (doc.values.map Prod.fst).Nodup
  undotted : ∀ f ∈ doc.type.fields, IsSegment f.storageName
  unclassed : ∀ name, doc.HasAttribute name → doc.storedName name ≠ classKey
  held : ∀ name, (Entries.get? doc.values name).isSome → doc.type.field? name = none →
    doc.type.storedField? name = none
  reached : ∀ name, reached name → doc.type.field? name = none →
    doc.type.storedField? name = none

namespace Document

variable {doc : Document}

/-- A declared attribute is stored under the storage name of its field. -/
theorem field_storedName {name : String} {f : Field} (h : doc.type.field? name = some f) :
    f ∈ doc.type.fields ∧ f.name = name ∧ doc.storedName name = f.storageName :=
  ⟨List.mem_of_find?_eq_some h, by simpa using List.find?_some h, storedName_of_field h⟩

/-- The storage name of a declared attribute is taken. -/
theorem storedField?_ne_none {name : String} {f : Field} (h : doc.type.field? name = some f) :
    doc.type.storedField? f.storageName ≠ none := by
  intro hnone
  have := List.find?_eq_none.mp hnone f (field_storedName h).1
  simp at this

/-- Two names that are stored alike are one, if names that are not declared are apart from the
storage names of the declared ones. -/
theorem eq_of_storedName (hbuilt : doc.type.Built) {a b : String}
    (ha : doc.type.field? a = none → doc.type.storedField? a = none)
    (hb : doc.type.field? b = none → doc.type.storedField? b = none)
    (hab : doc.storedName a = doc.storedName b) : a = b := by
  cases hfa : doc.type.field? a with
  | some f =>
    obtain ⟨hf, rfl, hsa⟩ := field_storedName hfa
    cases hfb : doc.type.field? b with
    | some g =>
      obtain ⟨hg, rfl, hsb⟩ := field_storedName hfb
      rw [hsa, hsb] at hab
      rw [List.inj_on_of_nodup_map hbuilt.storageNames_nodup hf hg hab]
    | none =>
      rw [hsa, storedName_of_undeclared hfb] at hab
      exact absurd (hab ▸ hb hfb) (storedField?_ne_none hfa)
  | none =>
    rw [storedName_of_undeclared hfa] at hab
    cases hfb : doc.type.field? b with
    | some g =>
      obtain ⟨-, -, hsb⟩ := field_storedName hfb
      rw [hsb] at hab
      exact absurd (hab ▸ ha hfa) (storedField?_ne_none hfb)
    | none => rw [hab, storedName_of_undeclared hfb]

/-- Where no storage name has a point, names without one are stored as segments. -/
theorem isSegment_storedName (hundotted : ∀ f ∈ doc.type.fields, IsSegment f.storageName)
    {name : String} (hname : IsSegment name) : IsSegment (doc.storedName name) := by
  cases hf : doc.type.field? name with
  | some f =>
    obtain ⟨hmem, -, hstored⟩ := field_storedName hf
    rw [hstored]
    exact hundotted f hmem
  | none => rwa [storedName_of_undeclared hf]

end Document

namespace Document.PlainlyNamed

variable {doc : Document} {reached : String → Prop}

/-- Two names that are stored alike are one, if names that are not declared are apart from the
storage names of the declared ones. -/
theorem eq_of_storedName (h : doc.PlainlyNamed reached) {a b : String}
    (ha : doc.type.field? a = none → doc.type.storedField? a = none)
    (hb : doc.type.field? b = none → doc.type.storedField? b = none)
    (hab : doc.storedName a = doc.storedName b) : a = b :=
  Document.eq_of_storedName h.built ha hb hab

/-- Plainly named attributes are stored apart. -/
theorem storedApart (h : doc.PlainlyNamed reached) : doc.StoredApart := by
  have hundeclared : ∀ name, doc.HasAttribute name → doc.type.field? name = none →
      doc.type.storedField? name = none := by
    intro name hname hnone
    rcases hname with hvalue | hfield
    · exact h.held name hvalue hnone
    · rw [hnone] at hfield
      cases hfield
  exact ⟨h.built, h.keys, fun a b ha hb => h.eq_of_storedName (hundeclared a ha) (hundeclared b hb),
    fun _ => h.unclassed⟩

/-- Plain names are stored as segments. -/
theorem isSegment_storedName (h : doc.PlainlyNamed reached) {name : String} (hname : IsSegment name) :
    IsSegment (doc.storedName name) :=
  Document.isSegment_storedName h.undotted hname

end Document.PlainlyNamed

/-! ### Paths through values that are stored with their parts -/

/-- A path from a place enters lists, dicts and plainly named documents that are stored with their
parts, and attributes that are present, until it ends or nothing is left to enter. `paths` are the
changed paths from the place. -/
inductive Place.Walks : (List String → Prop) → Place → List String → Prop
  | here (paths : List String → Prop) (p : Place) : Walks paths p []
  | nowhere {paths : List String → Prop} {p : Place} {s : String} {rest : List String}
      (hscalar : ∀ v, p.value = some v → v.IsScalar) : Walks paths p (s :: rest)
  | list {paths : List String → Prop} {f : Option Field} {items : List Value} {s : String}
      {rest : List String} (hclosed : ¬ Place.Opaque ⟨f, some (.list items)⟩)
      (h : Walks (fun q => paths (s :: q)) ((Place.mk f (some (.list items))).enter s).1 rest) :
      Walks paths ⟨f, some (.list items)⟩ (s :: rest)
  | dict {paths : List String → Prop} {f : Option Field} {entries : List (String × Value)}
      {s : String} {rest : List String}
      (h : Walks (fun q => paths (s :: q)) ((Place.mk f (some (.dict entries))).enter s).1 rest) :
      Walks paths ⟨f, some (.dict entries)⟩ (s :: rest)
  | document {paths : List String → Prop} {f : Option Field} {doc : Document} {s : String}
      {rest : List String} (hclosed : ¬ Place.Opaque ⟨f, some (.document doc)⟩)
      (hnames : doc.PlainlyNamed fun name => ∃ q, paths (name :: q))
      (hvalue : (Entries.get? doc.values s).isSome)
      (h : Walks (fun q => paths (s :: q)) (Place.inDocument doc s) rest) :
      Walks paths ⟨f, some (.document doc)⟩ (s :: rest)

namespace Place

/-- The name in the store of a part of anything but a document is the segment itself. -/
theorem enter_snd {p : Place} (h : ∀ doc, p.value ≠ some (.document doc)) (s : String) :
    (p.enter s).2 = s := by
  obtain ⟨f, v⟩ := p
  cases v with
  | none => rfl
  | some v =>
    cases v with
    | document doc => exact absurd rfl (h doc)
    | _ => rfl

/-- In anything but a document a path goes on with its own segment. -/
theorem follow_snd_cons {p : Place} (h : ∀ doc, p.value ≠ some (.document doc)) (s : String)
    (q : List String) : (p.follow (s :: q)).2 = s :: ((p.enter s).1.follow q).2 := by
  rw [follow_cons, enter_snd h]

/-- The part of a document is the value of an attribute. -/
theorem enter_document {p : Place} {doc : Document} (h : p.value = some (.document doc))
    (s : String) :
    (p.enter s).1.value = Entries.get? doc.values s ∧ (p.enter s).2 = doc.storedName s := by
  obtain ⟨f, v⟩ := p
  obtain rfl : v = some (.document doc) := h
  exact ⟨rfl, rfl⟩

/-- Parts with one name in the store are one, if a document there tells them apart. -/
theorem eq_of_enter {p : Place} {s t : String}
    (hdoc : ∀ doc, p.value = some (.document doc) → doc.storedName s = doc.storedName t → s = t)
    (h : (p.enter s).2 = (p.enter t).2) : s = t := by
  by_cases hvalue : ∃ doc, p.value = some (.document doc)
  · obtain ⟨doc, hvalue⟩ := hvalue
    rw [(enter_document hvalue s).2, (enter_document hvalue t).2] at h
    exact hdoc doc hvalue h
  · have hnot : ∀ doc, p.value ≠ some (.document doc) := fun doc hdoc' => hvalue ⟨doc, hdoc'⟩
    rwa [enter_snd hnot, enter_snd hnot] at h

/-- The names in the store along segments are segments, if no storage name has a point. -/
theorem isSegment_follow {p : Place} {q : List String}
    (hdocs : ∀ front doc, (p.follow front).1.value = some (.document doc) →
      ∀ f ∈ doc.type.fields, IsSegment f.storageName)
    (hq : ∀ s ∈ q, IsSegment s) : ∀ s ∈ (p.follow q).2, IsSegment s := by
  induction q generalizing p with
  | nil => exact fun s hs => absurd hs List.not_mem_nil
  | cons s rest ih =>
    obtain ⟨hs, hrest⟩ := List.forall_mem_cons.mp hq
    have hbelow : ∀ front doc, ((p.enter s).1.follow front).1.value = some (.document doc) →
        ∀ f ∈ doc.type.fields, IsSegment f.storageName :=
      fun front doc hdoc => hdocs (s :: front) doc (by rwa [follow_cons])
    rw [follow_cons]
    refine List.forall_mem_cons.mpr ⟨?_, ih hbelow hrest⟩
    by_cases hvalue : ∃ doc, p.value = some (.document doc)
    · obtain ⟨doc, hvalue⟩ := hvalue
      rw [(enter_document hvalue s).2]
      exact Document.isSegment_storedName (hdocs [] doc hvalue) hs
    · rwa [enter_snd fun doc hdoc => hvalue ⟨doc, hdoc⟩]

/-- **A path that begins another one in the store begins it**, if the documents on the way tell the
names of their next steps apart. -/
theorem prefix_of_follow {p : Place} {a q : List String}
    (hdocs : ∀ front s a' t q', a = front ++ s :: a' → q = front ++ t :: q' →
      ∀ doc, (p.follow front).1.value = some (.document doc) →
        doc.storedName s = doc.storedName t → s = t)
    (h : (p.follow a).2 <+: (p.follow q).2) : a <+: q := by
  induction a generalizing p q with
  | nil => exact List.nil_prefix
  | cons s a ih =>
    rw [follow_cons] at h
    cases q with
    | nil => exact absurd (List.prefix_nil.mp h) (List.cons_ne_nil _ _)
    | cons t q =>
      rw [follow_cons] at h
      obtain ⟨hname, hrest⟩ := List.cons_prefix_cons.mp h
      obtain rfl : s = t := eq_of_enter (hdocs [] s a t q rfl rfl) hname
      refine (List.prefix_cons_inj s).mpr (ih ?_ hrest)
      rintro front s' a' t' q' rfl rfl doc hdoc
      exact hdocs (s :: front) s' a' t' q' rfl rfl doc (by rwa [follow_cons])

/-- Below a value without parts the names in the store are the segments. -/
theorem follow_snd_of_scalar {p : Place} (hp : ∀ v, p.value = some v → v.IsScalar)
    (q : List String) : (p.follow q).2 = q := by
  induction q generalizing p with
  | nil => rfl
  | cons s rest ih =>
    have hnone := value_enter_of_leaf (fun v hv => (hp v hv).isLeaf) s
    rw [follow_snd_cons fun _ hdoc => hp _ hdoc, ih (by simp [hnone])]

/-- What is read behind a part depends on whether it is null or missing as little as the part
does. -/
theorem bind_getPath?_getD {o : Option Json} {j : Json} (h : o.getD .null = j)
    (segments : List String) :
    (o.bind (Json.getPath? segments)).getD .null = (j.getPath? segments).getD .null := by
  cases o with
  | none =>
    obtain rfl : Json.null = j := h
    cases segments with
    | nil => rfl
    | cons => rfl
  | some j' =>
    obtain rfl : j' = j := h
    rfl

namespace Walks

variable {paths : List String → Prop} {p : Place} {q : List String}

/-- The names in the store on the way are segments. -/
theorem isSegment_follow (h : p.Walks paths q) (hq : ∀ s ∈ q, IsSegment s) :
    ∀ s ∈ (p.follow q).2, IsSegment s := by
  induction h with
  | here => exact fun s hs => absurd hs List.not_mem_nil
  | nowhere hscalar =>
    rw [follow_snd_of_scalar hscalar]
    exact hq
  | list _ _ ih =>
    obtain ⟨hs, hrest⟩ := List.forall_mem_cons.mp hq
    rw [follow_cons]
    exact List.forall_mem_cons.mpr ⟨hs, ih hrest⟩
  | dict _ ih =>
    obtain ⟨hs, hrest⟩ := List.forall_mem_cons.mp hq
    rw [follow_cons]
    exact List.forall_mem_cons.mpr ⟨hs, ih hrest⟩
  | document _ hnames _ _ ih =>
    obtain ⟨hs, hrest⟩ := List.forall_mem_cons.mp hq
    rw [follow_cons]
    exact List.forall_mem_cons.mpr ⟨hnames.isSegment_storedName hs, ih hrest⟩

/-- **What is stored at the end of a path is part of what is stored at its start**, null where there
is none. -/
theorem gives (h : p.Walks paths q) {j : Json} (hj : p.toJson.Gives j) :
    ∃ j', (p.follow q).1.toJson.Gives j' ∧ (j.getPath? (p.follow q).2).getD .null = j' := by
  induction h generalizing j with
  | here => exact ⟨j, hj, rfl⟩
  | @nowhere _ p s rest hscalar =>
    have hnone := follow_of_none (value_enter_of_leaf (fun v hv => (hscalar v hv).isLeaf) s) rest
    refine ⟨.null, ?_, ?_⟩
    · rw [follow_cons, toJson, hnone]
      exact gives_pure.mpr rfl
    · rw [follow_cons, Json.getPath?, partless hscalar hj]
      rfl
  | @list _ f items s rest hclosed _ ih =>
    obtain ⟨j', hj', hget⟩ := ih (gives_item hj hclosed s)
    refine ⟨j', hj', ?_⟩
    rw [follow_cons, Json.getPath?]
    exact (bind_getPath?_getD rfl _).trans hget
  | @dict _ f entries s rest _ ih =>
    obtain ⟨j', hj', hget⟩ := ih (gives_entry hj s)
    refine ⟨j', hj', ?_⟩
    rw [follow_cons, Json.getPath?]
    exact (bind_getPath?_getD rfl _).trans hget
  | @document _ f doc s rest hclosed hnames hvalue _ ih =>
    obtain ⟨patch, hpatch, rfl⟩ := gives_document hj hclosed
    obtain ⟨j, hget, hform, -⟩ :=
      (Document.attributes_of_fullPatch hpatch hnames.storedApart).1 s (.inl hvalue)
    obtain ⟨j', hj', hread⟩ := ih (hform hvalue)
    refine ⟨j', hj', ?_⟩
    have hstored : (Entries.get? patch.sets (doc.storedName s)).getD .null = j := by
      rw [hget, Json.unlessNull]
      split
      · cases j <;> simp_all [Json.isNull]
      · rfl
    exact (bind_getPath?_getD hstored _).trans hread

/-- **No other changed path leads to the same place in the store**: paths that part lead to names
that part. -/
theorem injective (h : p.Walks paths q) (hq : ∀ s ∈ q, IsSegment s) {q' : List String}
    (hpath : paths q') (hq' : ∀ s ∈ q', IsSegment s) (hnot : ¬ Meets q q')
    (heq : (p.follow q).2 = (p.follow q').2.flatMap dottedSegments) : False := by
  induction h generalizing q' with
  | here => exact hnot (.inl List.nil_prefix)
  | nowhere hscalar =>
    rw [follow_snd_of_scalar hscalar, follow_snd_of_scalar hscalar, flatMap_dottedSegments hq'] at heq
    exact hnot (.inl (heq ▸ List.prefix_refl _))
  | @list _ _ _ s rest _ _ ih =>
    rcases q' with _ | ⟨s', rest'⟩
    · exact hnot (.inr List.nil_prefix)
    obtain ⟨hs, hrest⟩ := List.forall_mem_cons.mp hq
    obtain ⟨hs', hrest'⟩ := List.forall_mem_cons.mp hq'
    rw [follow_snd_cons (by simp), follow_snd_cons (by simp), List.flatMap_cons,
      dottedSegments_of_isSegment hs'] at heq
    obtain ⟨rfl, heq⟩ := List.cons.inj heq
    exact ih hrest hpath hrest' (fun h => hnot ((meets_append_iff [s]).mpr h)) heq
  | @dict _ _ _ s rest _ ih =>
    rcases q' with _ | ⟨s', rest'⟩
    · exact hnot (.inr List.nil_prefix)
    obtain ⟨hs, hrest⟩ := List.forall_mem_cons.mp hq
    obtain ⟨hs', hrest'⟩ := List.forall_mem_cons.mp hq'
    rw [follow_snd_cons (by simp), follow_snd_cons (by simp), List.flatMap_cons,
      dottedSegments_of_isSegment hs'] at heq
    obtain ⟨rfl, heq⟩ := List.cons.inj heq
    exact ih hrest hpath hrest' (fun h => hnot ((meets_append_iff [s]).mpr h)) heq
  | @document paths f doc s rest _ hnames hvalue _ ih =>
    rcases q' with _ | ⟨s', rest'⟩
    · exact hnot (.inr List.nil_prefix)
    obtain ⟨hs, hrest⟩ := List.forall_mem_cons.mp hq
    obtain ⟨hs', hrest'⟩ := List.forall_mem_cons.mp hq'
    have hstored : IsSegment (doc.storedName s') := hnames.isSegment_storedName hs'
    have hfollow : ∀ name q, ((Place.mk f (some (.document doc))).follow (name :: q)).2 =
        doc.storedName name :: ((inDocument doc name).follow q).2 := fun _ _ => rfl
    rw [hfollow, hfollow, List.flatMap_cons, dottedSegments_of_isSegment hstored] at heq
    obtain ⟨hname, heq⟩ := List.cons.inj heq
    -- The attribute of the path is present, and the other one is reached by a changed path.
    obtain rfl := hnames.eq_of_storedName (hnames.held s hvalue)
      (hnames.reached s' ⟨rest', hpath⟩) hname
    exact ih hrest hpath hrest' (fun h => hnot ((meets_append_iff [s]).mpr h)) heq

end Walks

end Place

/-! ### The entries of the patch -/

namespace Patch

/-- A patch holds a stored form under a key: it sets it, or removes the key if it is null. -/
structure Holds (p : Patch) (key : String) (j : Json) : Prop where
  sets : p.sets.get? key = j.unlessNull
  unsets : p.unsets.contains key = true ↔ j = .null

theorem contains_unsets_put (p : Patch) (key : String) (j : Json) (other : String) :
    (p.put key j).unsets.contains other = true ↔
      key = other ∧ j = .null ∨ p.unsets.contains other = true := by
  unfold put
  cases j with
  | null =>
    simp only [Json.isNull, ↓reduceIte, Entries.contains, Entries.get?_insert]
    by_cases h : key = other <;> simp [h]
  | _ => simp [Json.isNull]

/-- A patch with one more entry holds it, if the key was free or held the same. -/
theorem holds_put {p : Patch} {key : String} {j : Json}
    (h : p.sets.get? key = none ∧ p.unsets.contains key = false ∨ p.Holds key j) :
    (p.put key j).Holds key j := by
  refine ⟨?_, ?_⟩
  · rw [get?_sets_put, if_pos rfl]
    rcases h with ⟨hsets, -⟩ | h
    · rw [hsets, Option.or_none]
    · rw [h.sets, Option.or_self]
  · rw [contains_unsets_put]
    rcases h with ⟨-, hunsets⟩ | h
    · simp [hunsets]
    · rw [h.unsets]
      simp

/-- An entry under another key changes nothing. -/
theorem holds_put_of_ne {p : Patch} {key other : String} (hne : key ≠ other) {j j' : Json}
    (h : p.Holds other j) : (p.put key j').Holds other j := by
  refine ⟨?_, ?_⟩
  · rw [get?_sets_put, if_neg hne]
    exact h.sets
  · rw [contains_unsets_put]
    simp [hne, h.unsets]

end Patch

/-- **A patch of some paths holds what lives at the ones that are stored under a key**, if that has
one stored form. -/
theorem Document.holds_patchPaths {doc : Document} {paths : List String} {start p : Patch}
    {key : String} {j : Json} (h : (doc.patchPaths paths start).Gives p)
    (hform : ∀ path ∈ paths, (doc.locate path).2 = key →
      ∀ j', (doc.locate path).1.toJson.Gives j' → j' = j)
    (hstart : start.Holds key j ∨ start.sets.get? key = none ∧ start.unsets.contains key = false ∧
      ∃ path ∈ paths, (doc.locate path).2 = key) : p.Holds key j := by
  induction paths generalizing start with
  | nil =>
    obtain rfl := gives_pure.mp h
    rcases hstart with hstart | ⟨-, -, path, hpath, -⟩
    · exact hstart
    · cases hpath
  | cons path rest ih =>
    obtain ⟨j', hj', hrest⟩ := Gives.of_bind h
    have hnext : (doc.patchPaths rest (start.put (doc.locate path).2 j')).Gives p := hrest
    refine ih hnext (fun path hpath => hform path (List.mem_cons_of_mem _ hpath)) ?_
    by_cases hkey : (doc.locate path).2 = key
    · obtain rfl := hform path List.mem_cons_self hkey j' hj'
      subst hkey
      refine .inl (Patch.holds_put ?_)
      rcases hstart with hstart | ⟨hsets, hunsets, -⟩
      · exact .inr hstart
      · exact .inl ⟨hsets, hunsets⟩
    · rcases hstart with hstart | ⟨hsets, hunsets, other, hother, hotherKey⟩
      · exact .inl (Patch.holds_put_of_ne hkey hstart)
      · have hmem : other ∈ rest := by
          rcases List.mem_cons.mp hother with rfl | hmem
          · exact absurd hotherKey hkey
          · exact hmem
        refine .inr ⟨?_, ?_, other, hmem, hotherKey⟩
        · rw [Patch.get?_sets_put, if_neg hkey]
          exact hsets
        · rw [← Bool.not_eq_true, Patch.contains_unsets_put]
          simp [hkey, hunsets]

namespace Document

variable {doc : Document}

/-- The changed paths of a document as seen from itself. -/
def IsChanged (doc : Document) (q : List String) : Prop :=
  q ∈ doc.changedPaths.segments

/-- **The patch of what changed agrees with the whole stored form** at a changed path that walks:
under the path in the store, it sets exactly what the stored form has there, and removes exactly
what is missing or null. -/
theorem incrementalPatch_agrees {full : Object} {patch : Patch} {path : String}
    (hfull : doc.toStorage.Gives full) (hpatch : doc.incrementalPatch.Gives patch)
    (hpath : path ∈ doc.changedPaths.paths)
    (hwalks : doc.place.Walks doc.IsChanged (dottedSegments path))
    (hdetermined : (doc.locate path).1.toJson.Determined) :
    (∀ v, patch.sets.get? (doc.locate path).2 = some v ↔
      full.getPath? (doc.locate path).2 = some v ∧ v ≠ .null) ∧
    (patch.unsets.contains (doc.locate path).2 = true ↔
      full.getPath? (doc.locate path).2 = none ∨
        full.getPath? (doc.locate path).2 = some .null) := by
  obtain ⟨whole, hwhole, hsets⟩ := Gives.of_bind hfull
  obtain rfl := gives_pure.mp hsets
  have hplace : doc.place.toJson.Gives (.object whole.sets) := by
    obtain ⟨s, t, hrun⟩ := hwhole
    exact ⟨s, t, runFrom_bind_eq_ok.mpr ⟨whole, t, hrun, rfl⟩⟩
  have hmember : dottedSegments path ∈ doc.changedPaths.segments :=
    DirtyPaths.mem_segments.mpr ⟨path, hpath, rfl⟩
  have hsegments := DirtyPaths.isSegment_of_mem hmember
  obtain ⟨j, hj, hread⟩ := hwalks.gives hplace
  have hlocate := doc.locate_eq path
  have hnames : dottedSegments (doc.locate path).2 = (doc.place.follow (dottedSegments path)).2 := by
    rw [hlocate, dottedSegments_dotted]
    · rcases hsegs : dottedSegments path with _ | ⟨s, rest⟩
      · exact absurd hsegs (dottedSegments_ne_nil path)
      · exact List.cons_ne_nil _ _
    · exact hwalks.isSegment_follow hsegments
  have hform : ∀ other ∈ doc.changedPaths.paths, (doc.locate other).2 = (doc.locate path).2 →
      ∀ j', (doc.locate other).1.toJson.Gives j' → j' = j := by
    intro other hother hkey j' hj'
    have hmember' : dottedSegments other ∈ doc.changedPaths.segments :=
      DirtyPaths.mem_segments.mpr ⟨other, hother, rfl⟩
    have hsame : other = path := by
      by_contra hne
      have hparts : dottedSegments (doc.locate other).2 =
          (doc.place.follow (dottedSegments other)).2.flatMap dottedSegments := by
        rw [doc.locate_eq other, dottedSegments_dotted_parts]
        rcases hsegs : dottedSegments other with _ | ⟨s, rest⟩
        · exact absurd hsegs (dottedSegments_ne_nil other)
        · exact List.cons_ne_nil _ _
      refine hwalks.injective hsegments hmember' (DirtyPaths.isSegment_of_mem hmember') ?_
        (hnames.symm.trans ((congrArg dottedSegments hkey.symm).trans hparts))
      rintro (hbegins | hbegins)
      · exact hne (dottedSegments_injective
          (doc.antichain_changedPaths _ hmember _ hmember' hbegins)).symm
      · exact hne (dottedSegments_injective
          (doc.antichain_changedPaths _ hmember' _ hmember hbegins))
    subst hsame
    exact hdetermined j' j hj' (by rw [hlocate]; exact hj)
  have hholds := holds_patchPaths hpatch hform (.inr ⟨rfl, rfl, path, hpath, rfl⟩)
  have hfullRead : (Object.getPath? whole.sets (doc.locate path).2).getD .null = j := by
    rw [Object.getPath?, hnames]
    exact hread
  rw [hholds.sets, hholds.unsets]
  cases hget : Object.getPath? whole.sets (doc.locate path).2 with
  | none =>
    rw [hget] at hfullRead
    obtain rfl : Json.null = j := hfullRead
    simp [Json.unlessNull, Json.isNull]
  | some v =>
    rw [hget] at hfullRead
    obtain rfl : v = j := hfullRead
    refine ⟨fun w => ?_, by simp⟩
    cases v <;> simp [Json.unlessNull, Json.isNull] <;> rintro rfl <;> simp

end Document

/-! ### A book on a shelf -/

/-- Books have a title, which is stored under a short name. -/
def bookType : DocumentType where
  name := "Book"
  className := "Book"
  collection := none
  fields := [{ Field.ofKind "title" (.scalar .string) with storageName := "t" }]
  primaryKey := none
  isDynamic := false
  allowsInheritance := false
  superclass := none

theorem bookType_built : bookType.Built :=
  ⟨(Declaration.embedded "Book").withField
    { Field.ofKind "title" (.scalar .string) with storageName := "t" }, rfl⟩

/-- Shelves have books. -/
def shelfType : DocumentType where
  name := "Shelf"
  className := "Shelf"
  collection := some "shelves"
  fields := [{ Field.ofKind "id" (.scalar .objectId) with storageName := idKey },
    { Field.list "books" (.embedded bookType) with storageName := "b" }]
  primaryKey := some "id"
  isDynamic := false
  allowsInheritance := false
  superclass := none

theorem shelfType_built : shelfType.Built := by
  let plain : Declaration := (Declaration.document "Shelf").inCollection "shelves"
  exact ⟨plain.withField { Field.list "books" (.embedded bookType) with storageName := "b" }, rfl⟩

/-- A book whose title has changed. -/
def retitledBook : Document :=
  ⟨bookType, [("title", .string "new")], DirtyPaths.empty.mark "title", none⟩

/-- A shelf with the book. -/
def shelf : Document :=
  ⟨shelfType, [("books", .list [.document retitledBook]), ("id", .string "s")], .empty, none⟩

/-- The stored shelf. -/
def storedShelf : Object :=
  [(idKey, .string "s"), ("b", .array [.object [("t", .string "new")]])]

/-- The patch of the title. -/
def shelfPatch : Patch :=
  ⟨[("b.0.t", .string "new")], []⟩

/-- A document with declared attributes is plainly named, wherever declared names are reached. -/
theorem plainlyNamed_of_declared {doc : Document} {reached : String → Prop} (hbuilt : doc.type.Built)
    (hkeys : (doc.values.map Prod.fst).Nodup) (hundotted : ∀ f ∈ doc.type.fields, IsSegment f.storageName)
    (hunclassed : ∀ f ∈ doc.type.fields, f.storageName ≠ classKey)
    (hheld : ∀ name ∈ doc.values.map Prod.fst, (doc.type.field? name).isSome)
    (hreached : ∀ name, reached name → (doc.type.field? name).isSome) : doc.PlainlyNamed reached := by
  have hsome : ∀ name, (doc.type.field? name).isSome → doc.type.field? name = none →
      doc.type.storedField? name = none := by
    intro name hsome hnone
    rw [hnone] at hsome
    cases hsome
  have hdeclared : ∀ name, (Entries.get? doc.values name).isSome → (doc.type.field? name).isSome :=
    fun name hvalue => hheld name (Entries.get?_isSome_iff.mp hvalue)
  refine ⟨hbuilt, hkeys, hundotted, fun name hname => ?_, fun name hvalue => hsome name
    (hdeclared name hvalue), fun name hname => hsome name (hreached name hname)⟩
  obtain ⟨f, hf⟩ := Option.isSome_iff_exists.mp (hname.elim (hdeclared name) id)
  obtain ⟨hmem, -, hstored⟩ := Document.field_storedName hf
  rw [hstored]
  exact hunclassed f hmem

theorem incrementalPatch_agrees_shelf :
    shelf.toStorage.Gives storedShelf ∧ shelf.incrementalPatch.Gives shelfPatch ∧
      "books.0.title" ∈ shelf.changedPaths.paths ∧
      shelf.place.Walks shelf.IsChanged ["books", "0", "title"] ∧
      (shelf.locate "books.0.title").1.toJson.Determined ∧
      (shelfPatch.sets.get? "b.0.t" = some (.string "new") ↔
        storedShelf.getPath? "b.0.t" = some (.string "new") ∧ Json.string "new" ≠ .null) := by
  have hfull : shelf.toStorage.Gives storedShelf := ⟨.fresh, .fresh, rfl⟩
  have hpatch : shelf.incrementalPatch.Gives shelfPatch := ⟨.fresh, .fresh, rfl⟩
  have hchanged : ∀ q, shelf.IsChanged q → q = ["books", "0", "title"] := by
    intro q hq
    have hpaths : shelf.changedPaths.segments = [["books", "0", "title"]] := rfl
    exact List.mem_singleton.mp (hpaths ▸ hq)
  have hwalks : shelf.place.Walks shelf.IsChanged ["books", "0", "title"] := by
    refine .document nofun (plainlyNamed_of_declared shelfType_built (by decide) (by decide) (by decide)
      (by decide) ?_) rfl (.list ?_ (.document ?_ (plainlyNamed_of_declared bookType_built (by decide)
      (by decide) (by decide) (by decide) ?_) rfl (.here _ _)))
    · rintro name ⟨q, hq⟩
      obtain ⟨rfl, -⟩ := List.cons.inj (hchanged _ hq)
      rfl
    · intro hclosed
      cases hclosed with
      | geometry h => exact absurd h Bool.false_ne_true
    · intro hclosed
      cases hclosed with
      | reference h => exact absurd h Bool.false_ne_true
    · rintro name ⟨q, hq⟩
      have hpath := hchanged _ hq
      simp only [List.cons.injEq, true_and] at hpath
      obtain ⟨rfl, -⟩ := hpath
      rfl
  have hdetermined : (shelf.locate "books.0.title").1.toJson.Determined :=
    .of_runs fun s => ⟨s, rfl⟩
  have hmember : "books.0.title" ∈ shelf.changedPaths.paths := by decide
  have hagrees := Document.incrementalPatch_agrees hfull hpatch hmember hwalks hdetermined
  exact ⟨hfull, hpatch, hmember, hwalks, hdetermined, hagrees.1 (.string "new")⟩

/-! ### A name that is spelled like a storage name -/

/-- A book on which a path is marked that is no attribute, but spelled like the storage name of
one. -/
def doublyMarkedBook : Document :=
  ⟨bookType, [("title", .string "new")], (DirtyPaths.empty.mark "title").mark "t", none⟩

/-- The patch sets the title and removes what it has set. -/
theorem doublyMarkedBook_not_agrees :
    ∃ full patch, doublyMarkedBook.toStorage.Gives full ∧
      doublyMarkedBook.incrementalPatch.Gives patch ∧
      "title" ∈ doublyMarkedBook.changedPaths.paths ∧
      doublyMarkedBook.PlainlyNamed (fun _ => False) ∧
      (Entries.get? doublyMarkedBook.values "title").isSome ∧
      (doublyMarkedBook.locate "title").2 = "t" ∧
      full.getPath? "t" = some (.string "new") ∧ patch.unsets.contains "t" = true := by
  refine ⟨[("t", .string "new")], ⟨[("t", .string "new")], [("t", Json.ofNat 1)]⟩,
    ⟨.fresh, .fresh, rfl⟩, ⟨.fresh, .fresh, rfl⟩, by decide, ?_, rfl, rfl, rfl, rfl⟩
  exact plainlyNamed_of_declared bookType_built (by decide) (by decide) (by decide) (by decide) nofun

end DocumentMapper
