import DocumentMapper.Document.Changes
import DocumentMapper.Proofs.BuiltTypes
import DocumentMapper.Proofs.EntriesLaws
import DocumentMapper.Proofs.Runs
import DocumentMapper.Proofs.StoredForms
import DocumentMapper.Proofs.Tracking

/-!
# How documents store their attributes

A document stores each attribute under the storage name of its field, or under its own name where no
field is declared. Null is left out, and a polymorphic document stores its class besides.

This describes the stored form as long as no two attributes are stored under one name
(`Document.StoredApart`). Declared fields never are; an attribute that is not declared can take the
storage name of one that is.

## Main results

* `Document.stores_of_fullPatch`: the stored form of a document, attribute by attribute.
-/

namespace DocumentMapper

open Drawing

/-- What an object takes in of a stored form: null is left out. -/
def Json.unlessNull (j : Json) : Option Json :=
  if j.isNull then none else some j

namespace Document

/-- A document has the attributes that have a value and those that its type declares. -/
def HasAttribute (doc : Document) (name : String) : Prop :=
  (Entries.get? doc.values name).isSome ∨ (doc.type.field? name).isSome

/-- The name under which an attribute is stored. -/
def storedName (doc : Document) (name : String) : String :=
  (Place.inDocument doc name).storageName name

/-- No two attributes are stored under one name, and none under the one of the class. -/
structure StoredApart (doc : Document) : Prop where
  type : doc.type.Built
  values : (doc.values.map Prod.fst).Nodup
  injective : ∀ a b, doc.HasAttribute a → doc.HasAttribute b →
    doc.storedName a = doc.storedName b → a = b
  apartFromClass : doc.type.isPolymorphic = true →
    ∀ name, doc.HasAttribute name → doc.storedName name ≠ classKey

/-- The object has the stored form of each attribute under its name, and the class of a polymorphic
document. -/
structure Stores (doc : Document) (o : Object) : Prop where
  attributes : ∀ name, doc.HasAttribute name →
    ∃ j, (Place.inDocument doc name).toJson.Gives j ∧ o.get? (doc.storedName name) = j.unlessNull
  other : ∀ key, (∀ name, doc.HasAttribute name → doc.storedName name ≠ key) →
    o.get? key =
      if doc.type.isPolymorphic = true ∧ key = classKey then some (.string doc.type.className)
      else none

end Document

theorem Patch.get?_sets_put (p : Patch) (key : String) (j : Json) (other : String) :
    (p.put key j).sets.get? other =
      if key = other then j.unlessNull.or (p.sets.get? other) else p.sets.get? other := by
  unfold Patch.put Json.unlessNull
  split
  · split <;> simp
  · rw [Entries.get?_insert]
    split <;> simp

/-- What declared fields store, with the encoders of the attributes. -/
theorem gives_assembleFields {fields : List Field} {key : Option String}
    {encoders : List (String × Encoder)} {start p : Patch}
    (hnodup : (fields.map Field.storageName).Nodup)
    (h : (assembleFields fields key encoders start).Gives p) :
    (∀ f ∈ fields, ∃ j, (match encoderOf encoders f.name with
        | some encode => encode f
        | none => f.encodeDefault).Gives j ∧
      p.sets.get? f.storageName = j.unlessNull.or (start.sets.get? f.storageName)) ∧
    ∀ other, (∀ f ∈ fields, f.storageName ≠ other) →
      p.sets.get? other = start.sets.get? other := by
  induction fields generalizing start with
  | nil =>
    obtain rfl := gives_pure.mp h
    simp
  | cons f fs ih =>
    obtain ⟨hf, hfs⟩ := List.nodup_cons.mp hnodup
    rw [assembleFields_cons] at h
    obtain ⟨j, hj, hrest⟩ := Gives.of_bind h
    -- The field is skipped or put, which comes to the same for what is set.
    obtain ⟨next, hnext, hget⟩ : ∃ next : Patch, (assembleFields fs key encoders next).Gives p ∧
        ∀ other, next.sets.get? other =
          if f.storageName = other then j.unlessNull.or (start.sets.get? other)
          else start.sets.get? other := by
      split at hrest
      · rename_i hskip
        have hnull : j.isNull = true := (Bool.and_eq_true_iff.mp hskip).1
        exact ⟨start, hrest, fun other => by simp [Json.unlessNull, hnull]⟩
      · exact ⟨_, hrest, fun other => Patch.get?_sets_put start f.storageName j other⟩
    obtain ⟨hfields, hother⟩ := ih hfs hnext
    have hfirst : ∀ g ∈ fs, g.storageName ≠ f.storageName := by
      intro g hg heq
      exact hf (heq ▸ List.mem_map_of_mem hg)
    refine ⟨fun g hg => ?_, fun other hne => ?_⟩
    · rcases List.mem_cons.mp hg with rfl | hg
      · refine ⟨j, hj, ?_⟩
        rw [hother _ hfirst, hget, if_pos rfl]
      · obtain ⟨j', hj', hget'⟩ := hfields g hg
        refine ⟨j', hj', ?_⟩
        rw [hget', hget, if_neg (Ne.symm (hfirst g hg))]
    · rw [hother other fun g hg => hne g (List.mem_cons_of_mem _ hg), hget,
        if_neg (hne f List.mem_cons_self)]

/-- What the attributes store that are not declared. -/
theorem gives_addUndeclared {fields : List Field} {encoders : List (String × Encoder)}
    {start p : Patch} (hnodup : (encoders.map Prod.fst).Nodup)
    (h : (addUndeclared fields encoders start).Gives p) :
    (∀ e ∈ encoders, (fields.any fun f => f.name == e.1) = false →
      ∃ j, (e.2 (.any e.1)).Gives j ∧
        p.sets.get? e.1 = j.unlessNull.or (start.sets.get? e.1)) ∧
    ∀ other, (∀ e ∈ encoders, (fields.any fun f => f.name == e.1) = false → e.1 ≠ other) →
      p.sets.get? other = start.sets.get? other := by
  induction encoders generalizing start with
  | nil =>
    obtain rfl := gives_pure.mp h
    simp
  | cons e rest ih =>
    obtain ⟨name, encode⟩ := e
    obtain ⟨hname, hrest⟩ := List.nodup_cons.mp hnodup
    have hfirst : ∀ e ∈ rest, e.1 ≠ name := by
      intro e he heq
      exact hname (List.mem_map.mpr ⟨e, he, heq⟩)
    simp only [addUndeclared] at h
    split at h
    · rename_i hdeclared
      obtain ⟨hentries, hother⟩ := ih hrest h
      refine ⟨fun e he hundeclared => ?_, fun other hne => ?_⟩
      · rcases List.mem_cons.mp he with rfl | he
        · rw [hdeclared] at hundeclared
          cases hundeclared
        · exact hentries e he hundeclared
      · exact hother other fun e he => hne e (List.mem_cons_of_mem _ he)
    · rename_i hundeclared
      rw [Bool.not_eq_true] at hundeclared
      obtain ⟨j, hj, hnext⟩ := Gives.of_bind h
      obtain ⟨hentries, hother⟩ := ih hrest hnext
      have hget := Patch.get?_sets_put start name j
      refine ⟨fun e he hundeclared' => ?_, fun other hne => ?_⟩
      · rcases List.mem_cons.mp he with rfl | he
        · refine ⟨j, hj, ?_⟩
          rw [hother name fun e he _ => hfirst e he, hget, if_pos rfl]
        · obtain ⟨j', hj', hget'⟩ := hentries e he hundeclared'
          refine ⟨j', hj', ?_⟩
          rw [hget', hget, if_neg (Ne.symm (hfirst e he))]
      · rw [hother other fun e he => hne e (List.mem_cons_of_mem _ he), hget,
          if_neg (hne (name, encode) List.mem_cons_self hundeclared)]

@[simp] theorem map_fst_encodersOf (values : List (String × Value)) :
    (encodersOf values).map Prod.fst = values.map Prod.fst := by
  induction values with
  | nil => rfl
  | cons e rest ih =>
    obtain ⟨k, v⟩ := e
    simp [encodersOf, ih]

@[simp] theorem encoderOf_encodersOf (values : List (String × Value)) (name : String) :
    encoderOf (encodersOf values) name = (Entries.get? values name).map fun v f => v.encode f := by
  induction values with
  | nil => rfl
  | cons e rest ih =>
    obtain ⟨k, v⟩ := e
    by_cases hk : k = name
    · simp [encoderOf, encodersOf, Entries.get?, hk]
    · simpa [encoderOf, encodersOf, Entries.get?, hk] using ih

namespace Document

variable {doc : Document}

/-- The key of a document is what its key field stores. -/
theorem keyJson_eq {f : Field} (hfield : doc.type.primaryKeyField? = some f) :
    doc.keyJson = match Entries.get? doc.values f.name with
      | some v => v.encode f
      | none => pure .null := by
  have hfrom : doc.keyJson = doc.type.keyFrom (encodersOf doc.values) := by cases doc; rfl
  rw [hfrom, DocumentType.keyFrom, hfield]
  simp only [encoderOf_encodersOf]
  cases Entries.get? doc.values f.name <;> rfl

theorem storedName_of_field {name : String} {f : Field} (h : doc.type.field? name = some f) :
    doc.storedName name = f.storageName := by
  simp [storedName, Place.storageName, Place.inDocument, DocumentType.describe?, h]

theorem storedName_of_undeclared {name : String} (h : doc.type.field? name = none) :
    doc.storedName name = name := by
  simp only [storedName, Place.storageName, Place.inDocument, DocumentType.describe?, h]
  split <;> rfl

/-- **Declared attributes are stored apart.** -/
theorem storedApart_of_declared (ht : doc.type.Built) (hvalues : (doc.values.map Prod.fst).Nodup)
    (hdeclared : ∀ name ∈ doc.values.map Prod.fst, (doc.type.field? name).isSome)
    (hclass : doc.type.isPolymorphic = true → ∀ f ∈ doc.type.fields, f.storageName ≠ classKey) :
    doc.StoredApart := by
  have hfield : ∀ name, doc.HasAttribute name → ∃ f ∈ doc.type.fields, f.name = name ∧
      doc.storedName name = f.storageName := by
    intro name hname
    have hsome : (doc.type.field? name).isSome := by
      rcases hname with hvalue | hfield
      · exact hdeclared name (Entries.get?_isSome_iff.mp hvalue)
      · exact hfield
    obtain ⟨f, hf⟩ := Option.isSome_iff_exists.mp hsome
    exact ⟨f, List.mem_of_find?_eq_some hf, by simpa using List.find?_some hf, storedName_of_field hf⟩
  refine ⟨ht, hvalues, fun a b ha hb hab => ?_, fun hpolymorphic name hname => ?_⟩
  · obtain ⟨f, hf, rfl, hfs⟩ := hfield a ha
    obtain ⟨g, hg, rfl, hgs⟩ := hfield b hb
    rw [hfs, hgs] at hab
    rw [List.inj_on_of_nodup_map ht.storageNames_nodup hf hg hab]
  · obtain ⟨f, hf, -, hstored⟩ := hfield name hname
    rw [hstored]
    exact hclass hpolymorphic f hf

/-- Without a default nothing is stored for a missing value. -/
theorem gives_encodeDefault_none {f : Field} (h : f.default = none) {j : Json}
    (hj : f.encodeDefault.Gives j) : j = .null := by
  obtain ⟨name, storageName, isRequired, kind, default, validator⟩ := f
  subst h
  exact gives_pure.mp hj

/-- A polymorphic document starts with its class. -/
theorem get?_classPatch (isPolymorphic : Bool) (className key : String) :
    (classPatch isPolymorphic className).sets.get? key =
      if isPolymorphic = true ∧ key = classKey then some (.string className) else none := by
  unfold classPatch
  split
  · rename_i h
    by_cases hk : classKey = key
    · simp [h, Entries.get?, hk]
    · simp [h, Entries.get?, hk, Ne.symm hk]
  · rename_i h
    simp [h, Patch.empty]

/-- A document is stored by its type from the encoders of its attributes. -/
theorem fullPatch_eq (doc : Document) : doc.fullPatch =
    assembleFields doc.type.fields doc.type.primaryKey (encodersOf doc.values)
      (classPatch doc.type.isPolymorphic doc.type.className) >>=
    addUndeclared doc.type.fields (encodersOf doc.values) := by
  obtain ⟨type, values, dirty, raw⟩ := doc
  obtain ⟨name, className, collection, fields, key, isDynamic, inheritance, superclass⟩ := type
  rfl

theorem any_fields_eq_false_iff {name : String} :
    (doc.type.fields.any fun f => f.name == name) = false ↔ doc.type.field? name = none := by
  simp [DocumentType.field?]

theorem isSome_of_mem_encodersOf {e : String × Encoder} (he : e ∈ encodersOf doc.values) :
    (Entries.get? doc.values e.1).isSome := by
  rw [Entries.get?_isSome_iff, ← map_fst_encodersOf]
  exact List.mem_map_of_mem he

/-- The patch starts with nothing under the name of an attribute. -/
theorem StoredApart.get?_classPatch (h : doc.StoredApart) {name : String}
    (hname : doc.HasAttribute name) :
    (classPatch doc.type.isPolymorphic doc.type.className).sets.get? (doc.storedName name) =
      none := by
  rw [DocumentMapper.Document.get?_classPatch, if_neg]
  exact fun hclass => h.apartFromClass hclass.1 name hname hclass.2

/-- **What is stored of a declared attribute**: its value as the field encodes it, or the default of
the field. -/
theorem declared_of_fullPatch {patch : Patch} (h : doc.fullPatch.Gives patch)
    (hapart : doc.StoredApart) {name : String} {f : Field} (hf : doc.type.field? name = some f) :
    ∃ j, patch.sets.get? f.storageName = j.unlessNull ∧
      (match Entries.get? doc.values name with
        | some v => v.encode f
        | none => f.encodeDefault).Gives j := by
  rw [fullPatch_eq] at h
  obtain ⟨middle, hfields, hothers⟩ := Gives.of_bind h
  obtain ⟨hdeclared, -⟩ := gives_assembleFields hapart.type.storageNames_nodup hfields
  obtain ⟨-, hother⟩ := gives_addUndeclared (by simpa using hapart.values) hothers
  obtain ⟨j, hj, hget⟩ := hdeclared f (List.mem_of_find?_eq_some hf)
  have hname : f.name = name := by simpa using List.find?_some hf
  have hattribute : doc.HasAttribute name := .inr (by rw [hf]; rfl)
  have hstored := storedName_of_field hf
  refine ⟨j, ?_, ?_⟩
  · rw [hother, hget, ← hstored, hapart.get?_classPatch hattribute, Option.or_none]
    intro e he hundeclared heq
    have hnone := any_fields_eq_false_iff.mp hundeclared
    have hsame := hapart.injective e.1 name (.inl (isSome_of_mem_encodersOf he)) hattribute
      (by rw [storedName_of_undeclared hnone, heq, hstored])
    rw [hsame, hf] at hnone
    cases hnone
  · rw [hname, encoderOf_encodersOf] at hj
    cases hv : Entries.get? doc.values name with
    | none => simpa [hv] using hj
    | some v => simpa [hv] using hj

/-- **What is stored of an attribute that is not declared**: its value on its own. -/
theorem undeclared_of_fullPatch {patch : Patch} (h : doc.fullPatch.Gives patch)
    (hapart : doc.StoredApart) {name : String} (hf : doc.type.field? name = none) {v : Value}
    (hv : Entries.get? doc.values name = some v) :
    ∃ j, patch.sets.get? name = j.unlessNull ∧ (v.encode (.any name)).Gives j := by
  rw [fullPatch_eq] at h
  obtain ⟨middle, hfields, hothers⟩ := Gives.of_bind h
  obtain ⟨-, hother⟩ := gives_assembleFields hapart.type.storageNames_nodup hfields
  obtain ⟨hundeclared, -⟩ := gives_addUndeclared (by simpa using hapart.values) hothers
  have hencoder := encoderOf_encodersOf doc.values name
  rw [hv, Option.map_some] at hencoder
  obtain ⟨j, hj, hget⟩ :=
    hundeclared _ (Entries.mem_of_get? hencoder) (any_fields_eq_false_iff.mpr hf)
  have hattribute : doc.HasAttribute name := .inl (by rw [hv]; rfl)
  have hstored := storedName_of_undeclared hf
  refine ⟨j, ?_, hj⟩
  have hmiddle : middle.sets.get? name = none := by
    rw [hother, ← hstored, hapart.get?_classPatch hattribute]
    intro f hfmem heq
    have hfield := hapart.type.field?_of_mem hfmem
    have hsame := hapart.injective f.name name (.inr (by rw [hfield]; rfl)) hattribute
      (by rw [storedName_of_field hfield, hstored, heq])
    rw [hsame, hf] at hfield
    cases hfield
  rw [hget, hmiddle, Option.or_none]

/-- What is stored under the name of no attribute is the class of a polymorphic document. -/
theorem other_of_fullPatch {patch : Patch} (h : doc.fullPatch.Gives patch)
    (hapart : doc.StoredApart) {key : String}
    (hkey : ∀ name, doc.HasAttribute name → doc.storedName name ≠ key) :
    patch.sets.get? key =
      if doc.type.isPolymorphic = true ∧ key = classKey then some (.string doc.type.className)
      else none := by
  rw [fullPatch_eq] at h
  obtain ⟨middle, hfields, hothers⟩ := Gives.of_bind h
  obtain ⟨-, hdeclaredOther⟩ := gives_assembleFields hapart.type.storageNames_nodup hfields
  obtain ⟨-, hundeclaredOther⟩ := gives_addUndeclared (by simpa using hapart.values) hothers
  rw [hundeclaredOther, hdeclaredOther, DocumentMapper.Document.get?_classPatch]
  · intro f hf heq
    have hfield := hapart.type.field?_of_mem hf
    exact hkey f.name (.inr (by rw [hfield]; rfl)) (by rw [storedName_of_field hfield, heq])
  · intro e he hundeclared heq
    have hnone := any_fields_eq_false_iff.mp hundeclared
    exact hkey e.1 (.inl (isSome_of_mem_encodersOf he)) (by rw [storedName_of_undeclared hnone, heq])

/-- **A document stores each attribute under its name**, as long as no two are stored under one
name: a value as its field encodes it, the default of a field where there is none. Besides there is
only the class of a polymorphic document. -/
theorem attributes_of_fullPatch {patch : Patch} (h : doc.fullPatch.Gives patch)
    (hapart : doc.StoredApart) :
    (∀ name, doc.HasAttribute name → ∃ j,
      patch.sets.get? (doc.storedName name) = j.unlessNull ∧
        ((Entries.get? doc.values name).isSome → (Place.inDocument doc name).toJson.Gives j) ∧
        ∀ f, doc.type.field? name = some f → Entries.get? doc.values name = none →
          f.encodeDefault.Gives j) ∧
    ∀ key, (∀ name, doc.HasAttribute name → doc.storedName name ≠ key) →
      patch.sets.get? key =
        if doc.type.isPolymorphic = true ∧ key = classKey then some (.string doc.type.className)
        else none := by
  refine ⟨fun name hname => ?_, fun key hkey => other_of_fullPatch h hapart hkey⟩
  cases hf : doc.type.field? name with
  | some f =>
    obtain ⟨j, hget, hj⟩ := declared_of_fullPatch h hapart hf
    refine ⟨j, by rw [storedName_of_field hf, hget], fun hsome => ?_, fun g hg hnone => ?_⟩
    · obtain ⟨v, hv⟩ := Option.isSome_iff_exists.mp hsome
      rw [hv] at hj
      simpa [Place.inDocument, DocumentType.describe?, hf, hv, Place.toJson] using hj
    · obtain rfl : f = g := Option.some.inj hg
      rw [hnone] at hj
      exact hj
  | none =>
    have hsome : (Entries.get? doc.values name).isSome := hname.resolve_right (by simp [hf])
    obtain ⟨v, hv⟩ := Option.isSome_iff_exists.mp hsome
    obtain ⟨j, hget, hj⟩ := undeclared_of_fullPatch h hapart hf hv
    refine ⟨j, by rw [storedName_of_undeclared hf, hget], fun _ => ?_, fun g hg _ => by cases hg⟩
    simp only [Place.inDocument, DocumentType.describe?, hf, hv]
    split
    · exact hj
    · exact Value.plain_of_encode_any hj

/-- **A document stores its attributes**, as long as no two are stored under one name and no
attribute waits for a default. -/
theorem stores_of_fullPatch {patch : Patch} (h : doc.fullPatch.Gives patch)
    (hdefaults : doc.LacksNoDefault) (hapart : doc.StoredApart) : doc.Stores patch.sets := by
  obtain ⟨hattributes, hother⟩ := attributes_of_fullPatch h hapart
  refine ⟨fun name hname => ?_, hother⟩
  obtain ⟨j, hget, hvalue, hdefault⟩ := hattributes name hname
  refine ⟨j, ?_, hget⟩
  cases hv : Entries.get? doc.values name with
  | some v => exact hvalue (by rw [hv]; rfl)
  | none =>
    have hdeclared : (doc.type.field? name).isSome := hname.resolve_left (by simp [hv])
    obtain ⟨f, hf⟩ := Option.isSome_iff_exists.mp hdeclared
    obtain rfl := gives_encodeDefault_none (hdefaults name f hf hv) (hdefault f hf hv)
    simp [Place.inDocument, hv, Place.toJson]

end Document

end DocumentMapper
