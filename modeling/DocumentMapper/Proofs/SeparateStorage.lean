import DocumentMapper.Proofs.ContainerRules
import DocumentMapper.Proofs.SortedEntries
import DocumentMapper.Storage.Decoding

/-!
# Attributes in one flat object

A document writes declared fields under their storage names and any other attribute under its own
name, all into one object, which the class of a polymorphic document goes into, too. A type that was
built has distinct storage names. An attribute that is not declared can be spelled like any of them,
though, and nothing keeps an attribute from being stored like the class.

`Document.SpelledApart` rules both out, as far as it matters for what is written. Declared
attributes are always spelled apart, unless a field is stored like the class.

## Main results

* `Document.fullPatch_eq_writings`: the patch of a document is made of its writings, one for each
  attribute (`Document.writtenBy_of_writings`);
* `isSome_ofStorage_iff`: the attributes that are found in a stored document;
* `Document.fullPatch_keepsApart_iff`: the writings of a document keep its attributes apart exactly
  when they are spelled apart.
-/

namespace DocumentMapper

open Drawing

/-! ### What a document writes -/

/-- One attribute that a document writes, with the key under which it is stored. -/
structure Writing where
  name : String
  key : String
  encoded : Json

/-- The patch with what is written for one attribute. -/
def Patch.write (p : Patch) (w : Writing) : Patch :=
  p.put w.key w.encoded

/-- What is written for declared fields. A primary key without a value is not written. -/
def writeFields (primaryKey : Option String) (encoders : List (String × Encoder)) :
    List Field → Drawing (List Writing)
  | [] => return []
  | f :: fs => do
    let encoded ← match encoderOf encoders f.name with
      | some encode => encode f
      | none => f.encodeDefault
    let others ← writeFields primaryKey encoders fs
    if encoded.isNull && primaryKey == some f.name then return others
    else return ⟨f.name, f.storageName, encoded⟩ :: others

/-- What is written for attributes that are not declared. -/
def writeUndeclared (fields : List Field) : List (String × Encoder) → Drawing (List Writing)
  | [] => return []
  | (name, encode) :: rest => do
    if fields.any fun f => f.name == name then writeUndeclared fields rest
    else
      let encoded ← encode (.any name)
      let others ← writeUndeclared fields rest
      return ⟨name, name, encoded⟩ :: others

/-- What a document writes, attribute by attribute. -/
def Document.writings (doc : Document) : Drawing (List Writing) := do
  let declared ← writeFields doc.type.primaryKey (encodersOf doc.values) doc.type.fields
  let undeclared ← writeUndeclared doc.type.fields (encodersOf doc.values)
  return declared ++ undeclared

theorem writeFields_cons (primaryKey : Option String) (encoders : List (String × Encoder))
    (f : Field) (fs : List Field) :
    writeFields primaryKey encoders (f :: fs) =
      (match encoderOf encoders f.name with
        | some encode => encode f
        | none => f.encodeDefault) >>= fun j => do
          let others ← writeFields primaryKey encoders fs
          if j.isNull && primaryKey == some f.name then return others
          else return ⟨f.name, f.storageName, j⟩ :: others := by
  simp only [writeFields]
  cases encoderOf encoders f.name <;> rfl

theorem assembleFields_eq (primaryKey : Option String) (encoders : List (String × Encoder))
    (fields : List Field) (p : Patch) :
    assembleFields fields primaryKey encoders p =
      (fun ws => ws.foldl Patch.write p) <$> writeFields primaryKey encoders fields := by
  induction fields generalizing p with
  | nil => rfl
  | cons f fs ih =>
    simp only [assembleFields_cons, writeFields_cons, map_bind, ih]
    refine bind_congr fun j => ?_
    split <;> simp only [map_pure, bind_pure_comp, List.foldl_cons, Patch.write]

theorem addUndeclared_eq (fields : List Field) (encoders : List (String × Encoder)) (p : Patch) :
    addUndeclared fields encoders p =
      (fun ws => ws.foldl Patch.write p) <$> writeUndeclared fields encoders := by
  induction encoders generalizing p with
  | nil => rfl
  | cons e rest ih =>
    obtain ⟨name, encode⟩ := e
    simp only [addUndeclared, writeUndeclared]
    split
    · exact ih p
    · simp only [ih, map_bind, map_pure, List.foldl_cons]
      rfl

/-- **The patch of a document is made of its writings.** -/
theorem Document.fullPatch_eq_writings (doc : Document) :
    doc.fullPatch = (fun ws =>
      ws.foldl Patch.write (classPatch doc.type.isPolymorphic doc.type.className)) <$>
        doc.writings := by
  rw [Document.fullPatch_eq, assembleFields_eq]
  simp only [addUndeclared_eq, writings, map_bind, map_pure, bind_map_left, List.foldl_append]
  rfl

/-! ### Names and keys -/

/-- Declared fields are written under their storage names, each once. Only the primary key can be
missing. -/
theorem names_of_writeFields {primaryKey : Option String} {encoders : List (String × Encoder)}
    {fields : List Field} {ws : List Writing}
    (h : (writeFields primaryKey encoders fields).Gives ws) :
    ∃ written : List Field, written.Sublist fields ∧
      ws.map (fun w => (w.name, w.key)) = written.map (fun f => (f.name, f.storageName)) ∧
      ∀ f ∈ fields, f ∈ written ∨ primaryKey = some f.name := by
  induction fields generalizing ws with
  | nil =>
    obtain rfl := gives_pure.mp h
    exact ⟨[], .refl _, rfl, fun f hf => absurd hf List.not_mem_nil⟩
  | cons f fs ih =>
    rw [writeFields_cons] at h
    obtain ⟨j, -, h⟩ := Gives.of_bind h
    obtain ⟨others, hothers, h⟩ := Gives.of_bind h
    obtain ⟨written, hsub, hnames, hall⟩ := ih hothers
    split at h
    · rename_i hskip
      obtain rfl := gives_pure.mp h
      have hkey : primaryKey = some f.name := by
        simpa using (Bool.and_eq_true_iff.mp hskip).2
      refine ⟨written, hsub.cons f, hnames, List.forall_mem_cons.mpr ⟨.inr hkey, hall⟩⟩
    · obtain rfl := gives_pure.mp h
      refine ⟨f :: written, hsub.cons_cons f, by simp [hnames], List.forall_mem_cons.mpr
        ⟨.inl List.mem_cons_self, fun g hg => (hall g hg).imp_left (List.mem_cons_of_mem f)⟩⟩

/-- Other attributes are written under their own names. -/
theorem names_of_writeUndeclared {fields : List Field} {encoders : List (String × Encoder)}
    {ws : List Writing} (h : (writeUndeclared fields encoders).Gives ws) :
    ws.map (fun w => (w.name, w.key)) =
      ((encoders.map Prod.fst).filter fun name => !fields.any fun f => f.name == name).map
        fun name => (name, name) := by
  induction encoders generalizing ws with
  | nil =>
    obtain rfl := gives_pure.mp h
    rfl
  | cons e rest ih =>
    obtain ⟨name, encode⟩ := e
    rw [writeUndeclared] at h
    split at h
    · rename_i hdeclared
      rw [ih h, List.map_cons, List.filter_cons_of_neg (by simp [hdeclared])]
    · rename_i hundeclared
      obtain ⟨j, -, h⟩ := Gives.of_bind h
      obtain ⟨others, hothers, h⟩ := Gives.of_bind h
      obtain rfl := gives_pure.mp h
      rw [List.map_cons, ih hothers, List.map_cons,
        List.filter_cons_of_pos (by simpa using hundeclared)]
      rfl

namespace Document

/-- What is written belongs to the attributes of a document: each is written once, a declared one
under its storage name and any other one under its own name, and only a primary key without a value
is not written. -/
structure WrittenBy (doc : Document) (ws : List Writing) : Prop where
  names : (ws.map Writing.name).Nodup
  key : ∀ w ∈ ws, (∃ f ∈ doc.type.fields, f.name = w.name ∧ f.storageName = w.key) ∨
    (doc.type.field? w.name = none ∧ w.key = w.name ∧ w.name ∈ doc.values.map Prod.fst)
  all : ∀ name, doc.HasAttribute name →
    name ∈ ws.map Writing.name ∨ doc.type.primaryKey = some name

theorem writtenBy_of_writings {doc : Document} (ht : doc.type.Built)
    (hvalues : (doc.values.map Prod.fst).Nodup) {ws : List Writing} (h : doc.writings.Gives ws) :
    doc.WrittenBy ws := by
  obtain ⟨declared, hdeclared, h⟩ := Gives.of_bind h
  obtain ⟨undeclared, hundeclared, h⟩ := Gives.of_bind h
  obtain rfl := gives_pure.mp h
  obtain ⟨written, hsub, hfields, hall⟩ := names_of_writeFields hdeclared
  have hothers := names_of_writeUndeclared hundeclared
  rw [map_fst_encodersOf] at hothers
  have hnames : declared.map Writing.name = written.map Field.name := by
    simpa [Function.comp_def] using congrArg (List.map Prod.fst) hfields
  have hothernames : undeclared.map Writing.name =
      (doc.values.map Prod.fst).filter fun name =>
        !doc.type.fields.any fun f => f.name == name := by
    simpa [Function.comp_def] using congrArg (List.map Prod.fst) hothers
  have hundeclared : ∀ name, (!doc.type.fields.any fun f => f.name == name) = true ↔
      doc.type.field? name = none := by
    intro name
    rw [Bool.not_eq_true', any_fields_eq_false_iff]
  refine ⟨?_, fun w hw => ?_, fun name hname => ?_⟩
  · rw [List.map_append, hnames, hothernames]
    refine (ht.names_nodup.sublist (hsub.map _)).append (hvalues.filter _)
      fun name hname hother => ?_
    obtain ⟨f, hf, rfl⟩ := List.mem_map.mp hname
    have hnone := (hundeclared _).mp (List.mem_filter.mp hother).2
    rw [ht.field?_of_mem (hsub.subset hf)] at hnone
    cases hnone
  · rcases List.mem_append.mp hw with hw | hw
    · have hmem : (w.name, w.key) ∈ written.map fun f => (f.name, f.storageName) :=
        hfields ▸ List.mem_map_of_mem hw
      obtain ⟨f, hf, heq⟩ := List.mem_map.mp hmem
      exact .inl ⟨f, hsub.subset hf, (Prod.mk.inj heq).1, (Prod.mk.inj heq).2⟩
    · have hmem : (w.name, w.key) ∈ undeclared.map fun w => (w.name, w.key) :=
        List.mem_map_of_mem hw
      rw [hothers] at hmem
      obtain ⟨name, hname, heq⟩ := List.mem_map.mp hmem
      obtain ⟨rfl, hkey⟩ := Prod.mk.inj heq
      obtain ⟨hvalue, hnone⟩ := List.mem_filter.mp hname
      exact .inr ⟨(hundeclared _).mp hnone, hkey.symm, hvalue⟩
  · rw [List.map_append, List.mem_append, hnames, hothernames]
    cases hfield : doc.type.field? name with
    | some f =>
      have hmem := List.mem_of_find?_eq_some hfield
      obtain rfl : f.name = name := by simpa using List.find?_some hfield
      exact (hall f hmem).imp_left fun hf => .inl (List.mem_map_of_mem hf)
    | none =>
      have hvalue : name ∈ doc.values.map Prod.fst := by
        rcases hname with hname | hname
        · exact Entries.get?_isSome_iff.mp hname
        · rw [hfield] at hname
          cases hname
      exact .inl (.inr (List.mem_filter.mpr ⟨hvalue, (hundeclared name).mpr hfield⟩))

end Document

/-! ### The sides of the patch -/

/-- Set is what was set before and what is written with a value. -/
theorem mem_sets_foldl_write {ws : List Writing} {p : Patch} {key : String} :
    key ∈ (ws.foldl Patch.write p).sets.map Prod.fst ↔
      key ∈ p.sets.map Prod.fst ∨ ∃ w ∈ ws, w.key = key ∧ w.encoded.isNull = false := by
  induction ws generalizing p with
  | nil => simp
  | cons w rest ih =>
    rw [List.foldl_cons, ih, Patch.write, Patch.put]
    cases hnull : w.encoded.isNull
    · simp only [Bool.false_eq_true, if_false, Entries.mem_keys_insert, List.exists_mem_cons_iff,
        hnull, and_true]
      tauto
    · simp [hnull]

/-- Unset is what was unset before and what is written without a value. -/
theorem mem_unsets_foldl_write {ws : List Writing} {p : Patch} {key : String} :
    key ∈ (ws.foldl Patch.write p).unsets.map Prod.fst ↔
      key ∈ p.unsets.map Prod.fst ∨ ∃ w ∈ ws, w.key = key ∧ w.encoded.isNull = true := by
  induction ws generalizing p with
  | nil => simp
  | cons w rest ih =>
    rw [List.foldl_cons, ih, Patch.write, Patch.put]
    cases hnull : w.encoded.isNull
    · simp [hnull]
    · simp only [if_true, Entries.mem_keys_insert, List.exists_mem_cons_iff, hnull, and_true]
      tauto

/-! ### Reading back -/

/-- The attribute that a stored key is read as. -/
def DocumentType.attributeOf? (t : DocumentType) (key : String) : Option String :=
  if key = classKey then none
  else
    match t.storedField? key with
    | some f => some f.name
    | none => if t.isDynamic then some key else none

theorem map_fst_decodeFields (c : Catalog) (t : DocumentType) (o : Object) :
    (decodeFields c o t).map Prod.fst = (o.map Prod.fst).filterMap t.attributeOf? := by
  induction o with
  | nil => rfl
  | cons e rest ih =>
    obtain ⟨key, j⟩ := e
    rw [decodeFields, List.map_cons, List.filterMap_cons, ← ih]
    simp only [DocumentType.attributeOf?]
    split
    · rfl
    · cases t.storedField? key with
      | some f => rfl
      | none => cases t.isDynamic <;> rfl

/-- A document that is read has a value under every attribute that one of its keys is read as. -/
theorem isSome_ofStorage_iff {c : Catalog} {t : DocumentType} {o : Object} {name : String} :
    (Entries.get? (Document.ofStorage c t o).values name).isSome ↔
      ∃ key ∈ o.map Prod.fst, t.attributeOf? key = some name := by
  rw [Entries.get?_isSome_iff, Document.ofStorage, Entries.mem_keys_ofPairs, map_fst_decodeFields,
    List.mem_filterMap]

namespace Document

/-! ### Attributes kept apart -/

/-- A patch keeps the attributes of a document apart: different ones are written under different
keys, none is both set and unset, and every one with a value is found again. -/
structure KeepsApart (doc : Document) (c : Catalog) (ws : List Writing) (p : Patch) : Prop where
  keys : ∀ w ∈ ws, ∀ w' ∈ ws, w.name ≠ w'.name → w.key ≠ w'.key
  sides : ∀ key ∈ p.sets.map Prod.fst, key ∉ p.unsets.map Prod.fst
  found : ∀ w ∈ ws, w.encoded.isNull = false →
    (Entries.get? (ofStorage c doc.type p.sets).values w.name).isSome

/-- No attribute that is not declared is spelled like the storage name of a field, and none is
stored like the class. A primary key without a value leaves its storage name to an attribute without
a value, and the class of a type without subtypes leaves its key to such an attribute, too. -/
structure SpelledApart (doc : Document) (ws : List Writing) : Prop where
  written : ∀ w ∈ ws, doc.type.field? w.name = none →
    ∀ w' ∈ ws, (doc.type.field? w'.name).isSome → w'.key ≠ w.name
  stored : ∀ w ∈ ws, doc.type.field? w.name = none → w.encoded.isNull = false →
    doc.type.storedField? w.name = none
  class_ : ∀ w ∈ ws, w.key = classKey → w.encoded.isNull = true ∧ doc.type.isPolymorphic = false

section

variable {doc : Document} {c : Catalog} {ws : List Writing}

theorem WrittenBy.eq_of_name (h : doc.WrittenBy ws) {w w' : Writing} (hw : w ∈ ws) (hw' : w' ∈ ws)
    (hname : w.name = w'.name) : w = w' :=
  List.inj_on_of_nodup_map h.names hw hw' hname

/-- What is written is read back under its name if it is spelled apart. -/
theorem SpelledApart.attributeOf? (hspelled : doc.SpelledApart ws) (ht : doc.type.Built)
    (hdynamic : ∀ name ∈ doc.values.map Prod.fst, doc.type.field? name = none →
      doc.type.isDynamic = true) (h : doc.WrittenBy ws) {w : Writing} (hw : w ∈ ws)
    (hnull : w.encoded.isNull = false) : doc.type.attributeOf? w.key = some w.name := by
  have hclass : w.key ≠ classKey := by
    intro heq
    rw [(hspelled.class_ w hw heq).1] at hnull
    cases hnull
  rw [DocumentType.attributeOf?, if_neg hclass]
  rcases h.key w hw with ⟨f, hf, hname, hkey⟩ | ⟨hfield, hkey, hvalue⟩
  · rw [← hkey, ht.storedField?_of_mem hf]
    exact congrArg some hname
  · rw [hkey, hspelled.stored w hw hfield hnull, hdynamic w.name hvalue hfield]
    rfl

/-- Different attributes have different keys if they are spelled apart. -/
theorem SpelledApart.keys (hspelled : doc.SpelledApart ws) (ht : doc.type.Built)
    (h : doc.WrittenBy ws) {w w' : Writing} (hw : w ∈ ws) (hw' : w' ∈ ws)
    (hname : w.name ≠ w'.name) : w.key ≠ w'.key := by
  rcases h.key w hw with ⟨f, hf, hfname, hkey⟩ | ⟨hfield, hkey, -⟩
  · rcases h.key w' hw' with ⟨g, hg, hgname, hkey'⟩ | ⟨hfield', hkey', -⟩
    · rw [← hkey, ← hkey']
      intro heq
      rw [List.inj_on_of_nodup_map ht.storageNames_nodup hf hg heq, hgname] at hfname
      exact hname hfname.symm
    · rw [hkey']
      refine hspelled.written w' hw' hfield' w hw ?_
      rw [← hfname, ht.field?_of_mem hf]
      rfl
  · rcases h.key w' hw' with ⟨g, hg, hgname, hkey'⟩ | ⟨hfield', hkey', -⟩
    · rw [hkey]
      refine (hspelled.written w hw hfield w' hw' ?_).symm
      rw [← hgname, ht.field?_of_mem hg]
      rfl
    · rwa [hkey, hkey']

theorem WrittenBy.key_of_undeclared (ht : doc.type.Built) (h : doc.WrittenBy ws) {w : Writing}
    (hw : w ∈ ws) (hfield : doc.type.field? w.name = none) : w.key = w.name := by
  rcases h.key w hw with ⟨f, hf, hname, -⟩ | ⟨-, hkey, -⟩
  · rw [← hname, ht.field?_of_mem hf] at hfield
    cases hfield
  · exact hkey

/-- A key that is read as an attribute that is written is the key of the attribute. -/
theorem WrittenBy.key_eq_of_attributeOf? (ht : doc.type.Built) (h : doc.WrittenBy ws)
    {w w' : Writing} (hw : w ∈ ws) (hw' : w' ∈ ws)
    (hread : doc.type.attributeOf? w'.key = some w.name) : w'.key = w.key := by
  unfold DocumentType.attributeOf? at hread
  split at hread
  · cases hread
  · split at hread
    · rename_i g hstored
      obtain ⟨hg, hkey⟩ := DocumentType.mem_of_storedField? hstored
      have hfield : doc.type.field? w.name = some g := by
        rw [← Option.some.inj hread]
        exact ht.field?_of_mem hg
      rcases h.key w hw with ⟨f, hf, hname, hkey'⟩ | ⟨hnone, -, -⟩
      · rw [← hname, ht.field?_of_mem hf, Option.some.injEq] at hfield
        rw [← hkey, ← hkey', hfield]
      · rw [hnone] at hfield
        cases hfield
    · rename_i hstored
      rcases h.key w' hw' with ⟨f, hf, -, hkey⟩ | ⟨-, hkey, -⟩
      · rw [← hkey, ht.storedField?_of_mem hf] at hstored
        cases hstored
      · have hname : w'.key = w.name := by
          split at hread
          · exact Option.some.inj hread
          · cases hread
        rw [h.eq_of_name hw' hw (hkey.symm.trans hname)]

theorem mem_sets_classPatch {isPolymorphic : Bool} {className key : String} :
    key ∈ (classPatch isPolymorphic className).sets.map Prod.fst ↔
      isPolymorphic = true ∧ key = classKey := by
  cases isPolymorphic <;> simp [classPatch, Patch.empty]

theorem mem_unsets_classPatch {isPolymorphic : Bool} {className key : String} :
    key ∉ (classPatch isPolymorphic className).unsets.map Prod.fst := by
  cases isPolymorphic <;> simp [classPatch, Patch.empty]

/-- **Attributes are kept apart exactly when they are spelled apart.** -/
theorem keepsApart_iff (ht : doc.type.Built)
    (hdynamic : ∀ name ∈ doc.values.map Prod.fst, doc.type.field? name = none →
      doc.type.isDynamic = true) (h : doc.WrittenBy ws) :
    doc.KeepsApart c ws
        (ws.foldl Patch.write (classPatch doc.type.isPolymorphic doc.type.className)) ↔
      doc.SpelledApart ws := by
  constructor
  · intro hkeeps
    have hread : ∀ w ∈ ws, w.encoded.isNull = false →
        doc.type.attributeOf? w.key = some w.name := by
      intro w hw hnull
      obtain ⟨key, hkey, hattribute⟩ := isSome_ofStorage_iff.mp (hkeeps.found w hw hnull)
      rcases mem_sets_foldl_write.mp hkey with hclass | ⟨w', hw', rfl, -⟩
      · rw [(mem_sets_classPatch.mp hclass).2] at hattribute
        cases hattribute
      · rwa [← h.key_eq_of_attributeOf? ht hw hw' hattribute]
    refine ⟨fun w hw hfield w' hw' hfield' hkey => ?_, fun w hw hfield hnull => ?_,
      fun w hw hclass => ?_⟩
    · refine hkeeps.keys w' hw' w hw (fun hname => ?_)
        (hkey.trans (h.key_of_undeclared ht hw hfield).symm)
      rw [hname, hfield] at hfield'
      cases hfield'
    · have hattribute := hread w hw hnull
      rw [h.key_of_undeclared ht hw hfield] at hattribute
      cases hstored : doc.type.storedField? w.name with
      | none => rfl
      | some f =>
        unfold DocumentType.attributeOf? at hattribute
        rw [hstored] at hattribute
        split at hattribute
        · cases hattribute
        · have hsome := ht.field?_of_mem (DocumentType.mem_of_storedField? hstored).1
          rw [Option.some.inj hattribute, hfield] at hsome
          cases hsome
    · have hnull : w.encoded.isNull = true := by
        by_contra hne
        have hattribute := hread w hw (Bool.eq_false_iff.mpr hne)
        rw [hclass] at hattribute
        cases hattribute
      refine ⟨hnull, Bool.eq_false_iff.mpr fun hpolymorphic => ?_⟩
      exact hkeeps.sides classKey
        (mem_sets_foldl_write.mpr (.inl (mem_sets_classPatch.mpr ⟨hpolymorphic, rfl⟩)))
        (mem_unsets_foldl_write.mpr (.inr ⟨w, hw, hclass, hnull⟩))
  · intro hspelled
    refine ⟨fun w hw w' hw' hname => hspelled.keys ht h hw hw' hname, fun key hset hunset => ?_,
      fun w hw hnull => ?_⟩
    · obtain ⟨w', hw', rfl, hnull'⟩ :=
        (mem_unsets_foldl_write.mp hunset).resolve_left mem_unsets_classPatch
      rcases mem_sets_foldl_write.mp hset with hclass | ⟨w, hw, hkey, hnull⟩
      · obtain ⟨hpolymorphic, heq⟩ := mem_sets_classPatch.mp hclass
        rw [(hspelled.class_ w' hw' heq).2] at hpolymorphic
        cases hpolymorphic
      · have hsame : w = w' := by
          by_contra hne
          exact hspelled.keys ht h hw hw' (fun hname => hne (h.eq_of_name hw hw' hname)) hkey
        rw [hsame, hnull'] at hnull
        cases hnull
    · exact isSome_ofStorage_iff.mpr ⟨w.key,
        mem_sets_foldl_write.mpr (.inr ⟨w, hw, rfl, hnull⟩),
        hspelled.attributeOf? ht hdynamic h hw hnull⟩

/-- Declared attributes are spelled apart, unless one is stored like the class. -/
theorem spelledApart_of_declared (ht : doc.type.Built) (h : doc.WrittenBy ws)
    (hdeclared : ∀ name ∈ doc.values.map Prod.fst, (doc.type.field? name).isSome)
    (hclass : ∀ f ∈ doc.type.fields, f.storageName ≠ classKey) : doc.SpelledApart ws := by
  have hundeclared : ∀ w ∈ ws, doc.type.field? w.name ≠ none := by
    intro w hw hnone
    rcases h.key w hw with ⟨f, hf, hname, -⟩ | ⟨-, -, hvalue⟩
    · rw [← hname, ht.field?_of_mem hf] at hnone
      cases hnone
    · have hsome := hdeclared w.name hvalue
      rw [hnone] at hsome
      cases hsome
  refine ⟨fun w hw hnone => absurd hnone (hundeclared w hw),
    fun w hw hnone => absurd hnone (hundeclared w hw), fun w hw hkey => ?_⟩
  rcases h.key w hw with ⟨f, hf, -, hstored⟩ | ⟨hnone, -, -⟩
  · exact absurd (hstored.trans hkey) (hclass f hf)
  · exact absurd hnone (hundeclared w hw)

end

/-- **The full patch of a document keeps its attributes apart exactly when they are spelled apart.**
-/
theorem fullPatch_keepsApart_iff {doc : Document} (ht : doc.type.Built)
    (hvalues : (doc.values.map Prod.fst).Nodup)
    (hdynamic : ∀ name ∈ doc.values.map Prod.fst, doc.type.field? name = none →
      doc.type.isDynamic = true)
    {s s' : Supply} {p : Patch} (hrun : doc.fullPatch.runFrom s = (.ok p, s')) :
    ∃ ws, doc.writings.runFrom s = (.ok ws, s') ∧ doc.WrittenBy ws ∧
      p = ws.foldl Patch.write (classPatch doc.type.isPolymorphic doc.type.className) ∧
      ∀ c, doc.KeepsApart c ws p ↔ doc.SpelledApart ws := by
  rw [fullPatch_eq_writings, runFrom_map] at hrun
  rcases hwritings : doc.writings.runFrom s with ⟨cause | ws, u⟩
  · simp [hwritings, Except.map] at hrun
  · obtain ⟨rfl, rfl⟩ : ws.foldl Patch.write
        (classPatch doc.type.isPolymorphic doc.type.className) = p ∧ u = s' := by
      simpa [hwritings, Except.map] using hrun
    have hwritten := writtenBy_of_writings ht hvalues ⟨s, u, hwritings⟩
    exact ⟨ws, rfl, hwritten, rfl, fun c => keepsApart_iff ht hdynamic hwritten⟩

end Document

/-- Sheets have a title, which is stored under a short name, and whatever else they are given. -/
def sheetType : DocumentType where
  name := "Sheet"
  className := "Sheet"
  collection := some "sheets"
  fields := [{ Field.ofKind "id" (.scalar .objectId) with storageName := idKey },
    { Field.ofKind "title" (.scalar .string) with storageName := "t" }]
  primaryKey := some "id"
  isDynamic := true
  allowsInheritance := false
  superclass := none

theorem sheetType_built : sheetType.Built := by
  let plain : Declaration := ((Declaration.document "Sheet").inCollection "sheets").dynamic
  exact ⟨plain.withField { Field.ofKind "title" (.scalar .string) with storageName := "t" }, rfl⟩

/-- A sheet with one attribute that is not declared. -/
def sheetWith (name : String) (v : Value) : Document :=
  ⟨sheetType, [("id", .string "a"), (name, v), ("title", .string "old")], .empty, none⟩

theorem fullPatch_keepsApart_iff_sheet : ∃ ws p,
    (sheetWith "s" (.int 1)).fullPatch.runFrom .fresh = (.ok p, .fresh) ∧
      (sheetWith "s" (.int 1)).writings.runFrom .fresh = (.ok ws, .fresh) ∧
      (sheetWith "s" (.int 1)).KeepsApart .empty ws p := by
  have hrun : (sheetWith "s" (.int 1)).fullPatch.runFrom .fresh =
      (.ok ⟨[(idKey, .string "a"), ("t", .string "old"), ("s", .ofInt64 1)], []⟩, .fresh) := rfl
  have hwritings : (sheetWith "s" (.int 1)).writings.runFrom .fresh =
      (.ok [⟨"id", idKey, .string "a"⟩, ⟨"title", "t", .string "old"⟩, ⟨"s", "s", .ofInt64 1⟩],
        .fresh) := rfl
  obtain ⟨ws, hws, -, -, hiff⟩ := Document.fullPatch_keepsApart_iff sheetType_built (by decide)
    (fun _ _ _ => rfl) hrun
  obtain rfl := Except.ok.inj (Prod.mk.inj (hwritings.symm.trans hws)).1
  refine ⟨_, _, hrun, hwritings, (hiff .empty).mpr ⟨by decide, by decide, by decide⟩⟩

/-- An attribute that is spelled like the storage name of the title takes its place, and one without
a value is unset where the title is set. -/
theorem misspelledSheet_not_keepsApart : sheetType.Built ∧
    (∃ ws p, (sheetWith "t" (.string "new")).fullPatch.runFrom .fresh = (.ok p, .fresh) ∧
      (sheetWith "t" (.string "new")).writings.runFrom .fresh = (.ok ws, .fresh) ∧
      ¬ (sheetWith "t" (.string "new")).KeepsApart .empty ws p) ∧
    ∃ ws p, (sheetWith "t" .null).fullPatch.runFrom .fresh = (.ok p, .fresh) ∧
      (sheetWith "t" .null).writings.runFrom .fresh = (.ok ws, .fresh) ∧
      ¬ (sheetWith "t" .null).KeepsApart .empty ws p := by
  refine ⟨sheetType_built,
    ⟨[⟨"id", idKey, .string "a"⟩, ⟨"title", "t", .string "old"⟩, ⟨"t", "t", .string "new"⟩],
    ⟨[(idKey, .string "a"), ("t", .string "new")], []⟩, rfl, rfl, fun hkeeps => ?_⟩,
    [⟨"id", idKey, .string "a"⟩, ⟨"title", "t", .string "old"⟩, ⟨"t", "t", .null⟩],
    ⟨[(idKey, .string "a"), ("t", .string "old")], [("t", .ofNat 1)]⟩, rfl, rfl, fun hkeeps => ?_⟩
  · have hfound := hkeeps.found ⟨"t", "t", .string "new"⟩ (by simp) rfl
    cases hfound
  · exact hkeeps.sides "t" (by decide) (by decide)

end DocumentMapper
