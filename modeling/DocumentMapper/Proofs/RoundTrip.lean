import DocumentMapper.Proofs.Content
import DocumentMapper.Proofs.StoredTrees

/-!
# Decoding undoes encoding

A value of the kind that a field describes is stored without drawing numbers, and what is stored is
decoded to an equal value. The kinds nest: lists and dicts of such values, documents with such
attributes.

A document has to say more than its attributes. Its stored form names its class only if its type
takes part in a hierarchy, and the class has to lead back to the type; a document of any other type
is read as one of the type that the field declares. An attribute without a value must not wait for a
default, and null is not told apart from no value.

## Main results

* `Conforms.decode_encode`: decoding undoes encoding for every conforming value;
* `decoded_otherwise`: a type whose name has a point counts as a subtype of the type before the
  point, but its documents are stored without their class and are read as that type.
-/

namespace DocumentMapper

open Drawing

/-- The value can be stored for the field, and what is stored is read as an equal value. -/
def ComesBack (c : Catalog) (f : Field) (v : Value) : Prop :=
  ∃ j, (v.encode f).Yields j ∧ (f.decode c j).equal v = true

/-- Equal values are both null, or none is. -/
theorem Value.isNull_of_equal {v w : Value} (h : v.equal w = true) : v.isNull = w.isNull := by
  cases v <;> cases w <;> first | rfl | cases h

/-! ### References -/

/-- What the key of a document is stored as: a text, a number or a boolean. -/
def Json.IsKey : Json → Prop
  | .bool _ | .whole _ | .float _ | .string _ => True
  | _ => False

theorem Reference.equal_self {r : Reference} (h : r.id.WellFormed) : r.equal r = true := by
  simp [Reference.equal, h.equal_self]

/-- A reference to a declared type is stored as the key, and the field knows the type. -/
theorem comesBack_typed (c : Catalog) {f : Field} {typeName : String} {id : Json}
    (hkind : f.kind = .reference typeName) (hrule : f.validator = none) (hid : id.IsKey) :
    ComesBack c f (.reference (.typed typeName id)) := by
  refine ⟨id, Field.yields_check_bind hrule ?_, ?_⟩
  · rw [hkind]
    exact .pure id
  · have hequal : (Reference.typed typeName id).equal (.typed typeName id) = true := by
      refine Reference.equal_self ?_
      cases id <;> trivial
    cases id with
    | bool | whole | float | string =>
      simpa [Field.decode, Json.decode, hkind, decodeReference, Value.equal] using hequal
    | null | array | object => cases hid

/-- The envelope of a reference into a collection is read as the reference. -/
theorem reference?_genericEnvelope (name : String) (className : Option String) (id : Json) :
    (genericEnvelope name className id).reference? = some (.generic name className id) := by
  cases className <;>
    simp [genericEnvelope, Reference.pair, Json.reference?, innerReference?, Entries.get?, classKey,
      Json.asString?, Reference.generic]

/-- A reference into a collection is stored in an envelope. -/
theorem comesBack_generic (c : Catalog) {f : Field} {name : String} {className : Option String}
    {id : Json} (hkind : f.kind = .genericReference) (hrule : f.validator = none)
    (hid : id.WellFormed) : ComesBack c f (.reference (.generic name className id)) := by
  refine ⟨genericEnvelope name className id, Field.yields_check_bind hrule ?_, ?_⟩
  · rw [hkind]
    exact .pure _
  · have hread : f.decode c (genericEnvelope name className id) =
        .reference (.generic name className id) := by
      have henvelope := reference?_genericEnvelope name className id
      cases className <;>
        simp only [genericEnvelope] at henvelope ⊢ <;>
        simp only [Field.decode, Json.decode, hkind, Value.ofJson, henvelope]
    rw [hread]
    exact Reference.equal_self hid

/-! ### Lists and dicts -/

theorem yields_encodeItems {c : Catalog} {element : Field} {items : List Value}
    (h : ∀ v ∈ items, ComesBack c element v) :
    ∃ js, (encodeItems items element).Yields js ∧
      Value.equalItems (decodeItems c js element) items = true := by
  induction items with
  | nil => exact ⟨[], .pure _, rfl⟩
  | cons v vs ih =>
    obtain ⟨⟨j, hj, hequal⟩, hvs⟩ := List.forall_mem_cons.mp h
    obtain ⟨js, hjs, hrest⟩ := ih hvs
    refine ⟨j :: js, .bind hj (.bind hjs (.pure _)), ?_⟩
    rw [decodeItems, Value.equalItems, hrest, Bool.and_true]
    exact hequal

theorem yields_encodeEntries {c : Catalog} {f element : Field} {entries : List (String × Value)}
    (hkeys : ∀ e ∈ entries, Field.isBadKey e.1 = false)
    (h : ∀ e ∈ entries, ComesBack c element e.2) :
    ∃ o, (encodeEntries entries f element).Yields o ∧
      Value.equalEntries (decodeEntries c o element) entries = true := by
  induction entries with
  | nil => exact ⟨[], .pure _, rfl⟩
  | cons e rest ih =>
    obtain ⟨k, v⟩ := e
    obtain ⟨hk, hkeys⟩ := List.forall_mem_cons.mp hkeys
    obtain ⟨⟨j, hj, hequal⟩, hrest⟩ := List.forall_mem_cons.mp h
    obtain ⟨o, ho, hequals⟩ := ih hkeys hrest
    refine ⟨(k, j) :: o, ?_, ?_⟩
    · simp only [encodeEntries, show Field.isBadKey k = false from hk, Bool.false_eq_true,
        ↓reduceIte]
      exact .bind hj (.bind ho (.pure _))
    · rw [decodeEntries, Value.equalEntries, hequals, Bool.and_true, beq_self_eq_true,
        Bool.true_and]
      exact hequal

/-- Equal entries have the same keys. -/
theorem keys_of_equalEntries {es fs : List (String × Value)}
    (h : Value.equalEntries es fs = true) : es.map Prod.fst = fs.map Prod.fst := by
  induction es generalizing fs with
  | nil =>
    cases fs with
    | nil => rfl
    | cons => cases h
  | cons e es ih =>
    cases fs with
    | nil => cases h
    | cons f fs =>
      simp only [Value.equalEntries, Bool.and_eq_true, beq_iff_eq] at h
      rw [List.map_cons, List.map_cons, h.1.1, ih h.2]

theorem Value.equalEntries_of_forall₂ {es fs : List (String × Value)}
    (h : List.Forall₂ (fun e f => e.1 = f.1 ∧ e.2.equal f.2 = true) es fs) :
    Value.equalEntries es fs = true := by
  induction h with
  | nil => rfl
  | cons hef _ ih => simp [Value.equalEntries, hef.1, hef.2, ih]

/-- A list comes back if its items do. -/
theorem comesBack_list {c : Catalog} {f element : Field} {items : List Value}
    (hkind : f.kind = .list element) (hrule : f.validator = none)
    (h : ∀ v ∈ items, ComesBack c element v) : ComesBack c f (.list items) := by
  obtain ⟨js, hjs, hequal⟩ := yields_encodeItems h
  refine ⟨.array js, Field.yields_check_bind hrule ?_, ?_⟩
  · rw [hkind]
    exact .bind hjs (.pure _)
  · simpa only [Field.decode, Json.decode, hkind, Value.equal] using hequal

/-- A dict comes back if its values do. -/
theorem comesBack_dict {c : Catalog} {f element : Field} {entries : List (String × Value)}
    (hkind : f.kind = .dict element) (hrule : f.validator = none)
    (hsorted : Entries.Sorted entries) (hkeys : ∀ e ∈ entries, Field.isBadKey e.1 = false)
    (h : ∀ e ∈ entries, ComesBack c element e.2) : ComesBack c f (.dict entries) := by
  obtain ⟨o, ho, hequal⟩ := yields_encodeEntries (f := f) hkeys h
  have hread : Entries.Sorted (decodeEntries c o element) := by
    rw [Entries.Sorted, keys_of_equalEntries hequal]
    exact hsorted
  refine ⟨.object o, Field.yields_check_bind hrule ?_, ?_⟩
  · rw [hkind]
    exact .bind ho (.pure _)
  · simpa only [Field.decode, Json.decode, hkind, Value.ofPairs, Entries.ofPairs_of_sorted hread,
      Value.equal] using hequal

/-! ### Reading attributes -/

/-- Only fields are read from a document of a type that is not dynamic, each from its storage
name. -/
theorem mem_decodeFields {c : Catalog} {t : DocumentType} (hstatic : t.isDynamic = false)
    {o : Object} {e : String × Value} (h : e ∈ decodeFields c o t) :
    ∃ f ∈ t.fields, f.name = e.1 ∧ f.storageName ∈ o.map Prod.fst := by
  induction o with
  | nil => cases h
  | cons first rest ih =>
    obtain ⟨key, j⟩ := first
    have hrest : e ∈ decodeFields c rest t →
        ∃ f ∈ t.fields, f.name = e.1 ∧ f.storageName ∈ ((key, j) :: rest).map Prod.fst := by
      intro he
      obtain ⟨f, hf, hname, hkey⟩ := ih he
      exact ⟨f, hf, hname, List.mem_cons_of_mem _ hkey⟩
    rw [decodeFields] at h
    split at h
    · exact hrest h
    · split at h
      · rename_i f hfield
        obtain ⟨hf, hkey⟩ := DocumentType.mem_of_storedField? hfield
        rcases List.mem_cons.mp h with rfl | h
        · exact ⟨f, hf, rfl, by simp [hkey]⟩
        · exact hrest h
      · rw [hstatic] at h
        exact hrest h

section

variable {c : Catalog} {t : DocumentType} (hbuilt : t.Built) (hstatic : t.isDynamic = false)
include hbuilt hstatic

/-- The attributes that are read are distinct, if the storage names are. -/
theorem nodup_decodeFields {o : Object} (h : (o.map Prod.fst).Nodup) :
    ((decodeFields c o t).map Prod.fst).Nodup := by
  induction o with
  | nil => exact List.nodup_nil
  | cons first rest ih =>
    obtain ⟨key, j⟩ := first
    obtain ⟨hkey, hrest⟩ := List.nodup_cons.mp h
    rw [decodeFields]
    split
    · exact ih hrest
    · split
      · rename_i f hfield
        obtain ⟨hf, hname⟩ := DocumentType.mem_of_storedField? hfield
        refine List.nodup_cons.mpr ⟨fun hmem => ?_, ih hrest⟩
        obtain ⟨e, he, heq⟩ := List.mem_map.mp hmem
        obtain ⟨g, hg, hgname, hgkey⟩ := mem_decodeFields hstatic he
        have hsame : g = f :=
          List.inj_on_of_nodup_map hbuilt.names_nodup hg hf (hgname.trans heq)
        rw [hsame, hname] at hgkey
        exact hkey hgkey
      · rw [hstatic]
        exact ih hrest

/-- **The attribute of a field is read from its storage name.** -/
theorem get?_decodeFields {f : Field} (hf : f ∈ t.fields) (hclass : f.storageName ≠ classKey)
    (o : Object) :
    Entries.get? (decodeFields c o t) f.name = (o.get? f.storageName).map (f.decode c) := by
  induction o with
  | nil => rfl
  | cons first rest ih =>
    obtain ⟨key, j⟩ := first
    rw [decodeFields, Entries.get?_cons]
    split
    · rename_i hkey
      have hne : key ≠ f.storageName := fun heq => hclass (heq ▸ hkey)
      rw [if_neg hne, ih]
    · split
      · rename_i g hfield
        obtain ⟨hg, hgkey⟩ := DocumentType.mem_of_storedField? hfield
        rw [Entries.get?_cons]
        by_cases hname : g.name = f.name
        · obtain rfl := List.inj_on_of_nodup_map hbuilt.names_nodup hg hf hname
          rw [if_pos rfl, if_pos hgkey.symm]
          rfl
        · have hne : key ≠ f.storageName := by
            rintro rfl
            rw [hbuilt.storedField?_of_mem hf] at hfield
            exact hname (Option.some.inj hfield ▸ rfl)
          rw [if_neg hname, if_neg hne, ih]
      · rename_i hfield
        have hne : key ≠ f.storageName := by
          rintro rfl
          rw [hbuilt.storedField?_of_mem hf] at hfield
          cases hfield
        rw [hstatic, if_neg hne]
        exact ih

end

/-! ### Storing documents -/

theorem Patch.nodup_put {p : Patch} (h : (p.sets.map Prod.fst).Nodup) (key : String) (j : Json) :
    ((p.put key j).sets.map Prod.fst).Nodup := by
  unfold Patch.put
  split
  · exact h
  · exact Entries.nodup_insert h key j

/-- Declared fields are stored if each of them is, under distinct names. -/
theorem yields_assembleFields {fields : List Field} (key : Option String)
    {encoders : List (String × Encoder)}
    (h : ∀ f ∈ fields, ∃ j, (match encoderOf encoders f.name with
      | some encode => encode f
      | none => f.encodeDefault).Yields j)
    {p : Patch} (hp : (p.sets.map Prod.fst).Nodup) :
    ∃ p', (assembleFields fields key encoders p).Yields p' ∧ (p'.sets.map Prod.fst).Nodup := by
  induction fields generalizing p with
  | nil => exact ⟨p, .pure p, hp⟩
  | cons f fs ih =>
    obtain ⟨⟨j, hj⟩, hfs⟩ := List.forall_mem_cons.mp h
    obtain ⟨next, hnext, hnodup⟩ : ∃ next : Patch,
        next = (if j.isNull && key == some f.name then p else p.put f.storageName j) ∧
          (next.sets.map Prod.fst).Nodup := by
      refine ⟨_, rfl, ?_⟩
      split
      · exact hp
      · exact Patch.nodup_put hp f.storageName j
    obtain ⟨p', hp', hnodup'⟩ := ih hfs hnodup
    refine ⟨p', ?_, hnodup'⟩
    rw [assembleFields_cons]
    refine .bind hj ?_
    rw [hnext] at hp'
    split
    · rename_i hskip
      rwa [if_pos hskip] at hp'
    · rename_i hput
      rwa [if_neg hput] at hp'

/-- Declared attributes are stored as fields, and no more is stored of them. -/
theorem addUndeclared_eq_pure {fields : List Field} {encoders : List (String × Encoder)}
    (h : ∀ e ∈ encoders, (fields.any fun f => f.name == e.1) = true) (p : Patch) :
    addUndeclared fields encoders p = pure p := by
  induction encoders with
  | nil => rfl
  | cons e rest ih =>
    obtain ⟨hfirst, hrest⟩ := List.forall_mem_cons.mp h
    rw [addUndeclared, if_pos hfirst, ih hrest]

namespace Document

/-- A document that says all that its stored form says: its type is built and not dynamic and
stores no field as the class, its attributes are declared and not null, and what it misses has
no default. -/
structure IsPlain (doc : Document) : Prop where
  built : doc.type.Built
  static : doc.type.isDynamic = false
  classFree : ∀ f ∈ doc.type.fields, f.storageName ≠ classKey
  sorted : Entries.Sorted doc.values
  declared : ∀ e ∈ doc.values, (doc.type.field? e.1).isSome
  notNull : ∀ e ∈ doc.values, e.2.isNull = false
  noDefault : doc.LacksNoDefault

variable {c : Catalog} {doc : Document}

/-- A plain document is stored if its attributes are. -/
theorem IsPlain.yields_fullPatch (h : doc.IsPlain)
    (hvalues : ∀ f ∈ doc.type.fields, ∀ v, Entries.get? doc.values f.name = some v →
      ComesBack c f v) :
    ∃ patch, doc.fullPatch.Yields patch ∧ (patch.sets.map Prod.fst).Nodup := by
  have hfields : ∀ f ∈ doc.type.fields, ∃ j, (match encoderOf (encodersOf doc.values) f.name with
      | some encode => encode f
      | none => f.encodeDefault).Yields j := by
    intro f hf
    rw [encoderOf_encodersOf]
    cases hv : Entries.get? doc.values f.name with
    | some v =>
      obtain ⟨j, hj, -⟩ := hvalues f hf v hv
      exact ⟨j, hj⟩
    | none =>
      have hdefault := h.noDefault f.name f (h.built.field?_of_mem hf) hv
      obtain ⟨name, storageName, isRequired, kind, default, validator⟩ := f
      obtain rfl : default = none := hdefault
      exact ⟨.null, .pure _⟩
  have hstart :
      ((classPatch doc.type.isPolymorphic doc.type.className).sets.map Prod.fst).Nodup := by
    unfold classPatch
    split
    · exact List.nodup_singleton _
    · exact List.nodup_nil
  obtain ⟨patch, hpatch, hnodup⟩ := yields_assembleFields doc.type.primaryKey hfields hstart
  refine ⟨patch, ?_, hnodup⟩
  rw [fullPatch_eq]
  refine .bind hpatch ?_
  rw [addUndeclared_eq_pure]
  · exact .pure patch
  · intro e he
    have hkey : e.1 ∈ doc.values.map Prod.fst := by
      rw [← map_fst_encodersOf]
      exact List.mem_map_of_mem he
    obtain ⟨e', he', heq⟩ := List.mem_map.mp hkey
    have hsome := h.declared e' he'
    rw [heq] at hsome
    cases hany : doc.type.fields.any fun f => f.name == e.1 with
    | true => rfl
    | false => simp [any_fields_eq_false_iff.mp hany] at hsome

theorem IsPlain.storedApart (h : doc.IsPlain) : doc.StoredApart := by
  refine storedApart_of_declared h.built h.sorted.nodup (fun name hname => ?_) fun _ => h.classFree
  obtain ⟨e, he, rfl⟩ := List.mem_map.mp hname
  exact h.declared e he

/-- The stored form has an attribute under the storage name of its field, and what has no value is
missing there too. -/
theorem IsPlain.reads_attribute (h : doc.IsPlain) {o : Object} (hstores : doc.Stores o) {f : Field}
    (hf : f ∈ doc.type.fields)
    (hvalue : ∀ v, Entries.get? doc.values f.name = some v → ComesBack c f v) :
    Option.Rel (fun v w => v.equal w = true) ((o.get? f.storageName).map (f.decode c))
      (Entries.get? doc.values f.name) := by
  have hfield : doc.type.field? f.name = some f := h.built.field?_of_mem hf
  obtain ⟨j, hj, hget⟩ := hstores.attributes f.name (.inr (by rw [hfield]; rfl))
  rw [storedName_of_field hfield] at hget
  rw [hget]
  cases hv : Entries.get? doc.values f.name with
  | none =>
    simp only [Place.inDocument, hv, Place.toJson] at hj
    obtain rfl := gives_pure.mp hj
    exact .none
  | some v =>
    obtain ⟨j', hj', hequal⟩ := hvalue v hv
    simp only [Place.inDocument, DocumentType.describe?, hfield, hv, Place.toJson] at hj
    obtain rfl := hj'.eq_of_gives hj
    have hnotNull : j.isNull = false := by
      have hnull := Value.isNull_of_equal hequal
      rw [h.notNull (f.name, v) (Entries.mem_of_get? hv)] at hnull
      cases j <;> first | rfl | cases hnull
    simp only [Json.unlessNull, hnotNull, Bool.false_eq_true, ↓reduceIte, Option.map_some]
    exact .some hequal

/-- **The attributes of a plain document are read back.** -/
theorem IsPlain.equalEntries_decodeFields (h : doc.IsPlain) {o : Object} (hstores : doc.Stores o)
    (hnodup : (o.map Prod.fst).Nodup)
    (hvalues : ∀ f ∈ doc.type.fields, ∀ v, Entries.get? doc.values f.name = some v →
      ComesBack c f v) :
    Value.equalEntries (Entries.ofPairs (decodeFields c o doc.type)) doc.values = true := by
  have hread := nodup_decodeFields (c := c) h.built h.static hnodup
  have halike : List.Forall₂ (fun e e' => e.1 = e'.1 ∧ e.2.equal e'.2 = true)
      (Entries.ofPairs (decodeFields c o doc.type)) doc.values := by
    refine Entries.forall₂_of_get? (R := fun v w => Value.equal v w = true)
      (Entries.sorted_ofPairs _) h.sorted fun key => ?_
    rw [Entries.get?_ofPairs hread]
    cases hfield : doc.type.field? key with
    | some f =>
      have hf : f ∈ doc.type.fields := List.mem_of_find?_eq_some hfield
      obtain rfl : f.name = key := by simpa using List.find?_some hfield
      rw [get?_decodeFields h.built h.static hf (h.classFree f hf)]
      exact h.reads_attribute hstores hf (hvalues f hf)
    | none =>
      have hmissing : Entries.get? doc.values key = none := by
        rw [Entries.get?_eq_none_iff]
        intro hmem
        obtain ⟨e, he, rfl⟩ := List.mem_map.mp hmem
        have hsome := h.declared e he
        rw [hfield] at hsome
        cases hsome
      have hunread : Entries.get? (decodeFields c o doc.type) key = none := by
        rw [Entries.get?_eq_none_iff]
        intro hmem
        obtain ⟨e, he, rfl⟩ := List.mem_map.mp hmem
        obtain ⟨f, hf, hname, -⟩ := mem_decodeFields h.static he
        rw [← hname, h.built.field?_of_mem hf] at hfield
        cases hfield
      rw [hmissing, hunread]
      exact .none
  exact Value.equalEntries_of_forall₂ halike

/-- A plain document whose stored form leads back to its type. One that takes part in a hierarchy is
found by its class, and any other one has the type that the field declares. -/
structure FitsIn (c : Catalog) (declared : DocumentType) (doc : Document) : Prop where
  plain : doc.IsPlain
  subtype : doc.type.isSubtypeOf declared = true
  found : doc.type.isPolymorphic = true → c.byClassName? doc.type.className = some doc.type
  exact : doc.type.isPolymorphic = false → doc.type = declared

/-- The type of the document is the one that its stored form leads to. -/
theorem FitsIn.concreteType {declared : DocumentType} (h : doc.FitsIn c declared) {o : Object}
    (hstores : doc.Stores o) : c.concreteType declared o = doc.type := by
  have hclass := hstores.other classKey fun name hname heq => by
    cases hfield : doc.type.field? name with
    | some f =>
      rw [storedName_of_field hfield] at heq
      exact h.plain.classFree f (List.mem_of_find?_eq_some hfield) heq
    | none =>
      rcases hname with hname | hname
      · obtain ⟨e, he, rfl⟩ := List.mem_map.mp (Entries.get?_isSome_iff.mp hname)
        have hsome := h.plain.declared e he
        rw [hfield] at hsome
        cases hsome
      · rw [hfield] at hname
        cases hname
  unfold Catalog.concreteType
  rw [hclass]
  cases hpoly : doc.type.isPolymorphic with
  | true => simp [Json.asString?, h.found hpoly, h.subtype]
  | false => simp [h.exact hpoly]

/-- **A document comes back if its attributes do.** -/
theorem FitsIn.comesBack {declared : DocumentType} (h : doc.FitsIn c declared) {f : Field}
    (hkind : f.kind = .embedded declared) (hrule : f.validator = none)
    (hvalues : ∀ g ∈ doc.type.fields, ∀ v, Entries.get? doc.values g.name = some v →
      ComesBack c g v) : ComesBack c f (.document doc) := by
  obtain ⟨patch, hpatch, hnodup⟩ := h.plain.yields_fullPatch hvalues
  have hstores := stores_of_fullPatch hpatch.gives h.plain.noDefault h.plain.storedApart
  refine ⟨.object patch.sets, Field.yields_check_bind hrule ?_, ?_⟩
  · rw [hkind]
    simp only [h.subtype, ↓reduceIte]
    exact .bind hpatch (.pure _)
  · have hequal := h.plain.equalEntries_decodeFields (c := c) hstores hnodup hvalues
    simp only [Field.decode, Json.decode, hkind, h.concreteType hstores, Value.equal,
      Document.equal, beq_self_eq_true, Bool.true_and]
    exact hequal

end Document

/-! ### Conforming values -/

/-- The values that a field describes, whatever its nesting. No rule is checked on the way. -/
inductive Conforms (c : Catalog) : Field → Value → Prop
  | null (f : Field) : Conforms c f .null
  | scalar {f : Field} {s : Scalar} {v : Value} (hkind : f.kind = .scalar s)
      (hrule : f.validator = none) (h : s.Holds v) : Conforms c f v
  | reference {f : Field} {typeName : String} {id : Json} (hkind : f.kind = .reference typeName)
      (hrule : f.validator = none) (hid : id.IsKey) :
      Conforms c f (.reference (.typed typeName id))
  | genericReference {f : Field} {name : String} {className : Option String} {id : Json}
      (hkind : f.kind = .genericReference) (hrule : f.validator = none) (hid : id.WellFormed) :
      Conforms c f (.reference (.generic name className id))
  | list {f element : Field} {items : List Value} (hkind : f.kind = .list element)
      (hrule : f.validator = none) (h : ∀ v ∈ items, Conforms c element v) :
      Conforms c f (.list items)
  | dict {f element : Field} {entries : List (String × Value)} (hkind : f.kind = .dict element)
      (hrule : f.validator = none) (hsorted : Entries.Sorted entries)
      (hkeys : ∀ e ∈ entries, Field.isBadKey e.1 = false)
      (h : ∀ e ∈ entries, Conforms c element e.2) : Conforms c f (.dict entries)
  | document {f : Field} {declared : DocumentType} {doc : Document}
      (hkind : f.kind = .embedded declared) (hrule : f.validator = none)
      (hfits : doc.FitsIn c declared)
      (h : ∀ g ∈ doc.type.fields, ∀ v, Entries.get? doc.values g.name = some v →
        Conforms c g v) : Conforms c f (.document doc)

theorem Conforms.comesBack {c : Catalog} {f : Field} {v : Value} (h : Conforms c f v) :
    ComesBack c f v := by
  induction h with
  | null f => exact ⟨.null, .pure _, rfl⟩
  | scalar hkind hrule h =>
    obtain ⟨j, hj, hread⟩ := h.decode_eq c hkind hrule
    exact ⟨j, hj, hread.symm ▸ h.equal_self⟩
  | reference hkind hrule hid => exact comesBack_typed c hkind hrule hid
  | genericReference hkind hrule hid => exact comesBack_generic c hkind hrule hid
  | list hkind hrule _ ih => exact comesBack_list hkind hrule ih
  | dict hkind hrule hsorted hkeys _ ih => exact comesBack_dict hkind hrule hsorted hkeys ih
  | document hkind hrule hfits _ ih => exact hfits.comesBack hkind hrule ih

/-- **Decoding undoes encoding.** A conforming value is stored from every supply, without drawing
numbers, and what is stored is decoded to an equal value. -/
theorem Conforms.decode_encode {c : Catalog} {f : Field} {v : Value} (h : Conforms c f v) :
    ∃ j, (∀ s, (v.encode f).runFrom s = (.ok j, s)) ∧ (f.decode c j).equal v = true :=
  h.comesBack

/-! ### Pets and shapes -/

/-- A type of embedded documents. Its superclass makes it one of a hierarchy. -/
def embeddedType (name className : String) (fields : List Field) (inherits : Bool)
    (superclass : Option String) : DocumentType where
  name := name
  className := className
  collection := none
  fields := fields
  primaryKey := none
  isDynamic := false
  allowsInheritance := inherits
  superclass := superclass

/-- Animals have a name. -/
def animalType : DocumentType :=
  embeddedType "Animal" "Animal" [.ofKind "name" (.scalar .string)] true none

/-- Dogs are animals with the times of their walks. -/
def dogType : DocumentType :=
  embeddedType "Dog" "Animal.Dog"
    [.ofKind "name" (.scalar .string), .dict "walks" (.scalar .datetime)] true (some "Animal")

theorem dogType_built : dogType.Built :=
  ⟨(Declaration.subtype "Dog" animalType).withField (.dict "walks" (.scalar .datetime)), rfl⟩

/-- The catalog of animals. -/
def animalCatalog : Catalog :=
  (Catalog.empty.add animalType).add dogType

/-- Some animals. -/
def petsField : Field :=
  .list "pets" (.embedded animalType)

/-- A dog that was walked at the beginning of 2024. -/
def walkedDog : Document where
  type := dogType
  values := [("name", .string "Rex"), ("walks", .dict [("park", .datetime ⟨1704067200, 0⟩)])]
  dirty := .empty
  raw := none

theorem walkedDog_fits : walkedDog.FitsIn animalCatalog animalType where
  plain :=
    { built := dogType_built
      static := rfl
      classFree := by decide
      sorted := by
        unfold Entries.Sorted
        decide
      declared := by simp [walkedDog, dogType, embeddedType, DocumentType.field?, Field.ofKind,
        Field.dict]
      notNull := by simp [walkedDog, Value.isNull]
      noDefault := by
        intro name f hf _
        rcases List.mem_cons.mp (List.mem_of_find?_eq_some hf) with rfl | hf
        · rfl
        · rcases List.mem_cons.mp hf with rfl | hf
          · rfl
          · cases hf }
  subtype := by decide
  found := fun _ => rfl
  exact := fun h => absurd h (by decide)

/-- The attributes of the dog are of the kinds that its fields describe. -/
theorem walkedDog_conforms (c : Catalog) {g : Field} (hg : g ∈ walkedDog.type.fields) {v : Value}
    (hv : Entries.get? walkedDog.values g.name = some v) : Conforms c g v := by
  rcases List.mem_cons.mp hg with rfl | hg
  · obtain rfl := Option.some.inj hv
    exact .scalar rfl rfl (.string "Rex")
  · rcases List.mem_cons.mp hg with rfl | hg
    · obtain rfl := Option.some.inj hv
      refine .dict rfl rfl (by unfold Entries.Sorted; decide) (by decide) fun e he => ?_
      obtain rfl := List.mem_singleton.mp he
      exact .scalar rfl rfl (.datetime ⟨by decide, by decide, by decide⟩)
    · cases hg

theorem decode_encode_pets :
    Conforms animalCatalog petsField (.list [.document walkedDog, .null]) ∧
      ∃ j, (∀ s, ((Value.list [.document walkedDog, .null]).encode petsField).runFrom s =
          (.ok j, s)) ∧
        (petsField.decode animalCatalog j).equal (.list [.document walkedDog, .null]) = true := by
  have hconforms : Conforms animalCatalog petsField (.list [.document walkedDog, .null]) := by
    refine .list rfl rfl fun v hv => ?_
    rcases List.mem_cons.mp hv with rfl | hv
    · exact .document rfl rfl walkedDog_fits fun g hg v hv => walkedDog_conforms _ hg hv
    · obtain rfl := List.mem_singleton.mp hv
      exact .null _
  exact ⟨hconforms, hconforms.decode_encode⟩

/-- Shapes have nothing to say. -/
def shapeType : DocumentType :=
  embeddedType "Shape" "Shape" [] false none

/-- A type that is only named like one below shapes. -/
def circleType : DocumentType :=
  embeddedType "Shape.Circle" "Shape.Circle" [.ofKind "radius" (.scalar .int)] false none

/-- The catalog of both. -/
def shapeCatalog : Catalog :=
  (Catalog.empty.add shapeType).add circleType

/-- A circle. -/
def circle : Document where
  type := circleType
  values := [("radius", .int 2)]
  dirty := .empty
  raw := none

theorem circleType_built : circleType.Built :=
  ⟨(Declaration.embedded "Shape.Circle").withField (.ofKind "radius" (.scalar .int)), rfl⟩

theorem circle_isPlain : circle.IsPlain where
  built := circleType_built
  static := rfl
  classFree := by decide
  sorted := .cons (fun _ h => absurd h List.not_mem_nil) .nil
  declared := by simp [circle, circleType, embeddedType, DocumentType.field?, Field.ofKind]
  notNull := by simp [circle, Value.isNull]
  noDefault := by
    intro name f hf _
    obtain rfl := List.mem_singleton.mp (List.mem_of_find?_eq_some hf)
    rfl

/-- A circle is accepted as a shape and its type is found by its class, but the stored form does not
name the class: it is read as a shape without a radius. A leap second that is not the end of a
minute is stored as the second after it. -/
theorem decoded_otherwise :
    (circle.IsPlain ∧ circle.type.isSubtypeOf shapeType = true ∧
      shapeCatalog.byClassName? circle.type.className = some circle.type ∧
      (∀ g ∈ circle.type.fields, ∀ v, Entries.get? circle.values g.name = some v →
        Conforms shapeCatalog g v) ∧
      (∀ s, ((Value.document circle).encode (.ofKind "shape" (.embedded shapeType))).runFrom s =
        (.ok (.object [("radius", Json.ofInt64 2)]), s)) ∧
      ((Field.ofKind "shape" (.embedded shapeType)).decode shapeCatalog
        (.object [("radius", Json.ofInt64 2)])).equal (.document circle) = false) ∧
    (∀ s, ((Value.datetime ⟨0, 1500000000⟩).encode (.ofKind "at" (.scalar .datetime))).runFrom s =
        (.ok (.string "1970-01-01T00:00:01.500Z"), s)) ∧
      ((Field.ofKind "at" (.scalar .datetime)).decode shapeCatalog
        (.string "1970-01-01T00:00:01.500Z")).equal (.datetime ⟨0, 1500000000⟩) = false := by
  refine ⟨⟨circle_isPlain, by decide, rfl, fun g hg v hv => ?_, fun _ => rfl, rfl⟩, fun _ => rfl,
    rfl⟩
  obtain rfl := List.mem_singleton.mp hg
  obtain rfl := Option.some.inj hv
  exact .scalar rfl rfl (.int 2)

end DocumentMapper
