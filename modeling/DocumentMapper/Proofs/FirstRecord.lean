import DocumentMapper.Proofs.CleanSaves
import DocumentMapper.Proofs.FirstSave
import DocumentMapper.Proofs.InstantTexts
import DocumentMapper.Proofs.SettledForms

/-!
# The record of a first save

A first save adds one record, takes it over as the state of reference and leaves nothing to send.
Whether the saved document is stored as that record again is decided at the primary key: what
it writes beside the key is what was written the first time, and nothing is drawn for it.

The key is where it can fail. A document without a key is given one that is read from the id which
the store made up, a text, and validation does not look at keys; a field that refuses texts, or
this one, cannot store what it was given. And a key with a value can still be stored as null, so
that the record has an id that the document knows nothing of. Beside the key only a rule that looks
at marks can refuse what it accepted before, because the saved document has none.

## Main results

* `FirstSaved.storedAs_iff`: a saved document is stored as its record if its key is the id and it
  can be stored at all, as it can be under pure rules (`FirstSaved.storedAs_iff_of_pure`);
* `FirstSaved.keyedAs_iff_keyFits`: when its key is the id;
* `Document.save_first_record`: what a first save leaves behind.
-/

namespace DocumentMapper

open Drawing

theorem Drawing.Yields.map {α β : Type} {x : Drawing α} {a : α} (h : x.Yields a) (f : α → β) :
    (f <$> x).Yields (f a) := by
  rw [← bind_pure_comp]
  exact h.bind (.pure _)

/-! ### What writings set -/

namespace Patch

/-- What is set after some writings is what they set, or else what was set before. -/
theorem get?_sets_foldl_write (ws : List Writing) (p : Patch) (key : String) :
    (ws.foldl write p).sets.get? key =
      ((ws.foldl write .empty).sets.get? key).or (p.sets.get? key) := by
  induction ws generalizing p with
  | nil => rfl
  | cons w rest ih =>
    rw [List.foldl_cons, List.foldl_cons, ih (p.write w), ih (Patch.empty.write w), Option.or_assoc]
    congr 1
    rw [write, write, get?_sets_put, get?_sets_put]
    split
    · cases w.encoded.unlessNull <;> rfl
    · rfl

/-- Writings with one more among them set what they set, and its key. -/
theorem get?_sets_foldl_write_middle (front back : List Writing) {w : Writing}
    (hw : w.encoded.isNull = false) (p : Patch) (key : String) :
    ((front ++ w :: back).foldl write p).sets.get? key =
      if w.key = key then ((back.foldl write .empty).sets.get? key).or (some w.encoded)
      else ((front ++ back).foldl write p).sets.get? key := by
  have hset : w.encoded.unlessNull = some w.encoded := by simp [Json.unlessNull, hw]
  rw [List.foldl_append, List.foldl_cons, List.foldl_append, get?_sets_foldl_write back,
    get?_sets_foldl_write back (front.foldl write p), write, get?_sets_put, hset]
  split
  · rfl
  · rfl

/-- What is set was set before or is one of the writings, and then it is not null. -/
theorem written_of_get? {ws : List Writing} {p : Patch} {key : String} {j : Json}
    (h : (ws.foldl write p).sets.get? key = some j) :
    p.sets.get? key = some j ∨ ∃ w ∈ ws, w.key = key ∧ w.encoded = j ∧ j.isNull = false := by
  induction ws generalizing p with
  | nil => exact .inl h
  | cons w rest ih =>
    rcases ih h with hfirst | ⟨w', hw', hwritten⟩
    · rw [write, get?_sets_put] at hfirst
      split at hfirst
      · rename_i hkey
        rcases Option.or_eq_some_iff.mp hfirst with hnew | ⟨-, hold⟩
        · unfold Json.unlessNull at hnew
          split at hnew
          · cases hnew
          · rename_i hnull
            obtain rfl := Option.some.inj hnew
            exact .inr ⟨w, List.mem_cons_self, hkey, rfl, by simpa using hnull⟩
        · exact .inl hold
      · exact .inl hfirst
    · exact .inr ⟨w', List.mem_cons_of_mem _ hw', hwritten⟩

end Patch

/-- What declared fields write is what they store. -/
theorem gives_writeFields {key : Option String} {encoders : List (String × Encoder)}
    {fields : List Field} {ws : List Writing} (h : (writeFields key encoders fields).Gives ws) :
    (∀ w ∈ ws, ∃ f ∈ fields, w.key = f.storageName ∧ (f.storedBy encoders).Gives w.encoded) ∧
      ∀ f ∈ fields, ∃ j, (f.storedBy encoders).Gives j ∧
        (j.isNull = false → ⟨f.name, f.storageName, j⟩ ∈ ws) := by
  induction fields generalizing ws with
  | nil =>
    obtain rfl := gives_pure.mp h
    simp
  | cons f fs ih =>
    rw [writeFields_storedBy] at h
    obtain ⟨j, hj, h⟩ := Gives.of_bind h
    obtain ⟨others, hothers, h⟩ := Gives.of_bind h
    obtain ⟨hwritten, hstored⟩ := ih hothers
    have hlater : ∀ w ∈ others, ∃ g ∈ f :: fs, w.key = g.storageName ∧
        (g.storedBy encoders).Gives w.encoded := by
      intro w hw
      obtain ⟨g, hg, hkey⟩ := hwritten w hw
      exact ⟨g, List.mem_cons_of_mem _ hg, hkey⟩
    split at h
    · rename_i hskip
      obtain rfl := gives_pure.mp h
      refine ⟨hlater, List.forall_mem_cons.mpr ⟨⟨j, hj, fun hnull => ?_⟩, hstored⟩⟩
      rw [(Bool.and_eq_true_iff.mp hskip).1] at hnull
      cases hnull
    · obtain rfl := gives_pure.mp h
      refine ⟨List.forall_mem_cons.mpr ⟨⟨f, List.mem_cons_self, rfl, hj⟩, hlater⟩,
        List.forall_mem_cons.mpr ⟨⟨j, hj, fun _ => List.mem_cons_self⟩, fun g hg => ?_⟩⟩
      obtain ⟨j', hj', hmem⟩ := hstored g hg
      exact ⟨j', hj', fun hnull => List.mem_cons_of_mem _ (hmem hnull)⟩

/-! ### Writing one more key -/

theorem writeFields_congr {key : Option String} {encoders encoders' : List (String × Encoder)}
    {fields : List Field} (h : ∀ f ∈ fields, f.storedBy encoders' = f.storedBy encoders) :
    writeFields key encoders' fields = writeFields key encoders fields := by
  induction fields with
  | nil => rfl
  | cons f fs ih =>
    obtain ⟨hf, hfs⟩ := List.forall_mem_cons.mp h
    rw [writeFields_storedBy, writeFields_storedBy, hf, ih hfs]

/-- Where the key field has written nothing and now stores something, this is written in addition
to what was written. -/
theorem yields_writeFields_keyed {encoders encoders' : List (String × Encoder)}
    {fields : List Field} (hnames : (fields.map Field.name).Nodup) {f : Field} (hf : f ∈ fields)
    (hdraws : ∀ g ∈ fields, (g.storedBy encoders).DrawsNothing)
    (hothers : ∀ g ∈ fields, g.name ≠ f.name → g.storedBy encoders' = g.storedBy encoders)
    (hold : ∀ j, (f.storedBy encoders).Gives j → j.isNull = true) {id : Json}
    (hnew : (f.storedBy encoders').Yields id) (hid : id.isNull = false) {ws : List Writing}
    (h : (writeFields (some f.name) encoders fields).Gives ws) :
    ∃ front back, ws = front ++ back ∧
      (writeFields (some f.name) encoders' fields).Yields
        (front ++ ⟨f.name, f.storageName, id⟩ :: back) := by
  induction fields generalizing ws with
  | nil => cases hf
  | cons g gs ih =>
    obtain ⟨hg, hgs⟩ := List.nodup_cons.mp hnames
    obtain ⟨hdraws, hdrawsRest⟩ := List.forall_mem_cons.mp hdraws
    obtain ⟨hsame, hsameRest⟩ := List.forall_mem_cons.mp hothers
    rw [writeFields_storedBy] at h ⊢
    obtain ⟨j, hj, h⟩ := Gives.of_bind h
    obtain ⟨others, hrest, h⟩ := Gives.of_bind h
    by_cases hname : g.name = f.name
    · -- The key field: nothing was written for it, and the fields behind it store what they stored.
      obtain rfl : f = g := by
        rcases List.mem_cons.mp hf with heq | hmem
        · exact heq
        · exact absurd (hname ▸ List.mem_map_of_mem hmem) hg
      have hnull := hold j hj
      rw [if_pos (by simp [hnull])] at h
      obtain rfl := gives_pure.mp h
      have hcongr : writeFields (some f.name) encoders' gs = writeFields (some f.name) encoders gs :=
        writeFields_congr fun g hmem => hsameRest g hmem fun heq =>
          hg (heq ▸ List.mem_map_of_mem hmem)
      refine ⟨[], ws, rfl, .bind hnew (.bind (a := ws) ?_ ?_)⟩
      · rw [hcongr]
        exact drawsNothing_writeFields hdrawsRest _ ws hrest
      · rw [if_neg (by simp [hid])]
        exact .pure _
    · have hmem : f ∈ gs := (List.mem_cons.mp hf).resolve_left fun heq => hname (heq ▸ rfl)
      obtain ⟨front, back, rfl, hyields⟩ := ih hgs hmem hdrawsRest hsameRest hrest
      have hwrites : ¬ (j.isNull && some f.name == some g.name) = true := by
        simp [Ne.symm hname]
      rw [if_neg hwrites] at h
      obtain rfl := gives_pure.mp h
      have hyieldsFirst : (g.storedBy encoders').Yields j := hsame hname ▸ hdraws j hj
      refine ⟨⟨g.name, g.storageName, j⟩ :: front, back, rfl,
        .bind hyieldsFirst (.bind hyields ?_)⟩
      rw [if_neg hwrites]
      exact .pure _

/-- A declared attribute adds nothing to what is written for the others. -/
theorem writeUndeclared_insertSorted {fields : List Field} {key : String}
    (hkey : (fields.any fun f => f.name == key) = true) (es : List (String × Value)) (v : Value) :
    writeUndeclared fields (encodersOf (Entries.insertSorted es key v)) =
      writeUndeclared fields (encodersOf es) := by
  induction es with
  | nil => simp [Entries.insertSorted, encodersOf, writeUndeclared, hkey]
  | cons e rest ih =>
    obtain ⟨name, w⟩ := e
    simp only [Entries.insertSorted]
    split
    · rename_i hsame
      subst hsame
      simp [encodersOf, writeUndeclared, hkey]
    · split
      · simp [encodersOf, writeUndeclared, hkey]
      · simp only [encodersOf, writeUndeclared, ih]

/-! ### Keys -/

/-- A type with a collection has a key field, which is stored as the id. -/
theorem DocumentType.Built.exists_keyField {t : DocumentType} {collection : String} (ht : t.Built)
    (hc : t.collection = some collection) :
    ∃ f ∈ t.fields, t.primaryKey = some f.name ∧ t.primaryKeyField? = some f ∧
      f.storageName = idKey := by
  obtain ⟨key, f, hkey, hfield, rfl, hstored⟩ := ht.primaryKeyField? hc
  refine ⟨f, ?_, hkey, hfield, hstored⟩
  rw [DocumentType.primaryKeyField?, hkey, Option.bind_some] at hfield
  exact List.mem_of_find?_eq_some hfield

namespace Document

variable {doc : Document} {key : String} {f : Field}

theorem keyJson_put (hfield : doc.type.primaryKeyField? = some f) (v : Value) :
    (doc.put f.name v).keyJson = v.encode f := by
  have hput : (doc.put f.name v).type.primaryKeyField? = some f := hfield
  rw [keyJson_eq hput, put, Entries.get?_insertSorted_self]

/-- A document with a key has it under the name of the key field. -/
theorem get?_of_primaryKey? (hkey : doc.type.primaryKey = some key) {v : Value}
    (h : doc.primaryKey? = some v) : Entries.get? doc.values key = some v := by
  rw [primaryKey?, hkey, Option.bind_some] at h
  split at h
  · rename_i w hw
    split at h
    · cases h
    · rw [hw, h]
  · cases h

/-- The key that is read from an id is read for the key field. -/
theorem keyFromStore_eq (c : Catalog) (id : Json) (hfield : doc.type.primaryKeyField? = some f) :
    doc.keyFromStore c id = f.decode c id := by
  rw [keyFromStore, hfield]

/-- The key field stores the value that the document has for it. -/
theorem storedBy_of_value {v : Value} (hv : Entries.get? doc.values f.name = some v) :
    f.storedBy (encodersOf doc.values) = v.encode f := by
  rw [Field.storedBy, encoderOf_encodersOf, hv]
  rfl

/-- The key field of a complete document without key stores nothing. -/
theorem null_of_no_key (ht : doc.type.Built) (hc : doc.Complete) (hf : f ∈ doc.type.fields)
    (hkey : doc.type.primaryKey = some f.name) (h : doc.primaryKey? = none) {j : Json}
    (hj : (f.storedBy (encodersOf doc.values)).Gives j) : j = .null := by
  rcases missing_of_no_key hkey h with hnone | hnull
  · rw [Field.storedBy, encoderOf_encodersOf, hnone] at hj
    refine gives_encodeDefault_none ?_ hj
    exact ((complete_iff doc).mp hc).1 f.name f (ht.field?_of_mem hf) hnone
  · rw [storedBy_of_value hnull] at hj
    exact gives_pure.mp hj

/-- What a document writes, and what its patch makes of it. -/
theorem gives_writings {patch : Patch} (h : doc.fullPatch.Gives patch) :
    ∃ declared undeclared,
      (writeFields doc.type.primaryKey (encodersOf doc.values) doc.type.fields).Gives declared ∧
      (writeUndeclared doc.type.fields (encodersOf doc.values)).Gives undeclared ∧
      patch = (declared ++ undeclared).foldl Patch.write
        (classPatch doc.type.isPolymorphic doc.type.className) := by
  rw [fullPatch_eq_writings, gives_map] at h
  obtain ⟨ws, hws, rfl⟩ := h
  obtain ⟨declared, hdeclared, h⟩ := Gives.of_bind hws
  obtain ⟨undeclared, hundeclared, h⟩ := Gives.of_bind h
  obtain rfl := gives_pure.mp h
  exact ⟨declared, undeclared, hdeclared, hundeclared, rfl⟩

/-- A stored form has an id if it says anything under the name of the id. -/
theorem id?_of_fullPatch {patch : Patch} (h : doc.fullPatch.Gives patch) :
    patch.sets.id? = patch.sets.get? idKey := by
  obtain ⟨declared, undeclared, -, -, rfl⟩ := gives_writings h
  cases hset : Entries.get? (List.foldl Patch.write _ _).sets idKey with
  | none => rw [Object.id?, hset, Option.filter_none]
  | some j =>
    have hnull : j.isNull = false := by
      rcases Patch.written_of_get? hset with hclass | ⟨-, -, -, -, hnull⟩
      · rw [get?_classPatch, if_neg (by simp [idKey, classKey])] at hclass
        cases hclass
      · exact hnull
    rw [Object.id?, hset, Option.filter_some, if_pos (by simp [hnull])]

/-- Without an undeclared attribute that is spelled like the id, the id of a stored form is what the
key field stores. -/
theorem gives_of_get?_idKey {patch : Patch} (ht : doc.type.Built)
    (hf : f ∈ doc.type.fields) (hstored : f.storageName = idKey)
    (hfree : doc.type.field? idKey = none → Entries.get? doc.values idKey = none)
    (h : doc.fullPatch.Gives patch) {j : Json} (hj : patch.sets.get? idKey = some j) :
    (f.storedBy (encodersOf doc.values)).Gives j ∧ j.isNull = false := by
  obtain ⟨declared, undeclared, hdeclared, hundeclared, rfl⟩ := gives_writings h
  rcases Patch.written_of_get? hj with hclass | ⟨w, hw, hkey, rfl, hnull⟩
  · rw [get?_classPatch, if_neg (by simp [idKey, classKey])] at hclass
    cases hclass
  · refine ⟨?_, hnull⟩
    rcases List.mem_append.mp hw with hw | hw
    · obtain ⟨g, hg, hgkey, hgives⟩ := (gives_writeFields hdeclared).1 w hw
      obtain rfl : g = f := List.inj_on_of_nodup_map ht.storageNames_nodup hg hf
        (by rw [← hgkey, hkey, hstored])
      exact hgives
    · exfalso
      have hnames := names_of_writeUndeclared hundeclared
      have hmem : (w.name, w.key) ∈ undeclared.map fun w => (w.name, w.key) :=
        List.mem_map_of_mem hw
      rw [hnames, map_fst_encodersOf] at hmem
      obtain ⟨name, hname, heq⟩ := List.mem_map.mp hmem
      obtain ⟨-, rfl⟩ := Prod.mk.inj heq
      rw [hkey] at hname
      obtain ⟨hvalue, hnone⟩ := List.mem_filter.mp hname
      rw [Bool.not_eq_true', any_fields_eq_false_iff] at hnone
      exact Entries.get?_eq_none_iff.mp (hfree hnone) hvalue

/-- A key field that stores something gives the stored form an id. -/
theorem isSome_get?_idKey {patch : Patch} (hf : f ∈ doc.type.fields)
    (hstored : f.storageName = idKey) (h : doc.fullPatch.Gives patch) {j : Json}
    (hj : ∀ j', (f.storedBy (encodersOf doc.values)).Gives j' → j' = j) (hnull : j.isNull = false) :
    (patch.sets.get? idKey).isSome := by
  obtain ⟨declared, undeclared, hdeclared, -, rfl⟩ := gives_writings h
  obtain ⟨j', hj', hmem⟩ := (gives_writeFields hdeclared).2 f hf
  obtain rfl := hj j' hj'
  rw [Entries.get?_isSome_iff, mem_sets_foldl_write]
  exact .inr ⟨_, List.mem_append_left _ (hmem hnull), hstored, hnull⟩

/-- **A document that is given a key writes what it wrote, and the key.** -/
theorem yields_put_key (hc : doc.Complete) (hs : doc.Settled) (hf : f ∈ doc.type.fields)
    (hstored : f.storageName = idKey) (hkey : doc.type.primaryKey = some f.name)
    (hnone : doc.primaryKey? = none) {patch : Patch} (h : doc.fullPatch.Gives patch) {v : Value}
    {id : Json} (hv : (v.encode f).Yields id) (hid : id.isNull = false)
    (hgiven : ∀ j, patch.sets.get? idKey = some j → j = id) :
    ∃ patch', (doc.put f.name v).fullPatch.Yields patch' ∧
      ∀ other, patch'.sets.get? other =
        if idKey = other then some id else patch.sets.get? other := by
  have ht := hs.built
  obtain ⟨declared, undeclared, hdeclared, hundeclared, rfl⟩ := gives_writings h
  rw [hkey] at hdeclared
  have hputValue : Entries.get? (doc.put f.name v).values f.name = some v :=
    Entries.get?_insertSorted_self _ _ _
  have hothers : ∀ g ∈ doc.type.fields, g.name ≠ f.name →
      g.storedBy (encodersOf (doc.put f.name v).values) = g.storedBy (encodersOf doc.values) :=
    fun g _ hname => by
      simp only [Field.storedBy, encoderOf_encodersOf, put,
        Entries.get?_insertSorted_of_ne _ _ (Ne.symm hname)]
  obtain ⟨front, back, rfl, hyields⟩ := yields_writeFields_keyed ht.names_nodup hf
    (fun g hg => hs.storedBy hc hg) hothers
    (fun j hj => by rw [null_of_no_key ht hc hf hkey hnone hj]; rfl)
    (by rwa [storedBy_of_value hputValue]) hid hdeclared
  have hsameUndeclared : writeUndeclared doc.type.fields (encodersOf (doc.put f.name v).values) =
      writeUndeclared doc.type.fields (encodersOf doc.values) :=
    writeUndeclared_insertSorted (List.any_eq_true.mpr ⟨f, hf, by simp⟩) _ _
  refine ⟨(front ++ ⟨f.name, f.storageName, id⟩ :: (back ++ undeclared)).foldl Patch.write
    (classPatch doc.type.isPolymorphic doc.type.className), ?_, fun other => ?_⟩
  · rw [fullPatch_eq_writings]
    refine Yields.map (.bind (a := front ++ ⟨f.name, f.storageName, id⟩ :: back) ?_
      (.bind (a := undeclared) ?_ ?_)) _
    · rw [← hkey] at hyields
      exact hyields
    · change (writeUndeclared doc.type.fields _).Yields _
      rw [hsameUndeclared]
      exact (hs.encoders hc).writeUndeclared _ _ hundeclared
    · rw [List.append_assoc, List.cons_append]
      exact .pure _
  · rw [Patch.get?_sets_foldl_write_middle _ _ hid, hstored]
    split
    · rename_i hother
      subst hother
      rw [List.append_assoc, List.foldl_append, Patch.get?_sets_foldl_write] at hgiven
      cases hset : Entries.get? (List.foldl Patch.write .empty (back ++ undeclared)).sets idKey with
      | none => rfl
      | some j =>
        rw [hset, Option.some_or] at hgiven
        rw [Option.some_or, hgiven j rfl]
    · rw [List.append_assoc]

end Document

/-! ### Fields that store made-up ids -/

namespace Field

variable {f : Field}

/-- A field stores an id that was read for it as that id: it holds texts, ids or anything, or
references, and its validator accepts what it has read. -/
def StoresId (f : Field) (c : Catalog) (id : Json) : Prop :=
  f.validator.bind (·.objection? (f.decode c id)) = none ∧
    match f.kind with
    | .scalar s => s = .any ∨ s = .string ∨ s = .objectId
    | .reference _ => True
    | _ => False

/-- A value that passes the validator goes on to be stored. -/
theorem yields_check_bind_iff {β : Type} {v : Value} {x : Unit → Drawing β} {b : β} :
    (f.check v >>= x).Yields b ↔ f.validator.bind (·.objection? v) = none ∧ (x ()).Yields b := by
  unfold check
  cases f.validator.bind (·.objection? v) with
  | none => exact (and_iff_right rfl).symm
  | some cause =>
    refine ⟨fun h => ?_, fun h => nomatch h.1⟩
    exact absurd (h .fresh) (by simp [refuse])

theorem not_yields_refuse {α : Type} {cause : ValueError} {a : α} :
    ¬ (f.refuse cause : Drawing α).Yields a :=
  fun h => not_gives_throw h.gives

/-- **The fields that store a text again that was read for them.** The text is not that of an
instant. -/
theorem yields_encode_decode_text (c : Catalog) {text : String}
    (hinstant : Time.Instant.read? text = none) :
    ((f.decode c (.string text)).encode f).Yields (.string text) ↔
      f.StoresId c (.string text) := by
  have hleaf : ∀ {v : Value} {x : Drawing Json},
      f.encodeLeaf v = (f.check v >>= fun _ => x) →
      ((f.encodeLeaf v).Yields (.string text) ↔
        f.validator.bind (·.objection? v) = none ∧ x.Yields (.string text)) := by
    intro v x hx
    rw [hx]
    exact yields_check_bind_iff
  unfold StoresId
  cases hkind : f.kind with
  | scalar s =>
    have hvalue : f.decode c (.string text) = .string text := by
      simp only [decode, Json.decode, hkind]
      cases s <;> simp [Scalar.decodeLeaf, hinstant, Value.ofJson]
    have hencode : f.encodeLeaf (.string text) =
        (f.check (.string text) >>= fun _ => f.encodeScalar s (.string text)) := by
      rw [encodeLeaf, hkind]
    rw [hvalue]
    refine (hleaf hencode).trans (and_congr_right fun _ => ?_)
    cases s with
    | any | string | objectId => exact iff_of_true (Yields.pure (Json.string text)) (by simp)
    | datetime => simpa [encodeScalar, hinstant] using not_yields_refuse
    | _ => simpa [encodeScalar, mismatch] using not_yields_refuse
  | reference name =>
    have hvalue : f.decode c (.string text) = .reference (.typed name (.string text)) := by
      simp only [decode, Json.decode, hkind]
      rfl
    have hencode : f.encodeLeaf (.reference (.typed name (.string text))) =
        (f.check (.reference (.typed name (.string text))) >>= fun _ => pure (.string text)) := by
      rw [encodeLeaf, hkind]
      rfl
    rw [hvalue]
    exact (hleaf hencode).trans
      (and_congr_right fun _ => iff_true_intro (Yields.pure (Json.string text)))
  | _ =>
    have hvalue : f.decode c (.string text) = .string text := by
      simp only [decode, Json.decode, hkind]
      rfl
    obtain ⟨cause, hencode⟩ : ∃ cause, f.encodeLeaf (.string text) =
        (f.check (.string text) >>= fun _ => f.refuse cause) := by
      rw [encodeLeaf, hkind]
      exact ⟨_, rfl⟩
    rw [hvalue]
    exact (hleaf hencode).trans (and_congr_right fun _ => iff_of_false not_yields_refuse id)

end Field

/-- No made-up id is the text of an instant. -/
theorem Store.not_instant_madeId (n : Nat) :
    Time.Instant.read? ("<id-" ++ toString (n + 1) ++ ">") = none := by
  have htext : ("<id-" ++ toString (n + 1) ++ ">").toList =
      '<' :: ("id-".toList ++ (toString (n + 1)).toList ++ ">".toList) := by
    rw [String.toList_append, String.toList_append]
    rfl
  exact Time.Instant.read?_of_not_digit htext rfl

/-! ### Stored as a record -/

namespace Document

/-- The key of the document is the id of the record, and it is stored without drawing. -/
def KeyedAs (doc : Document) (record : Object) : Prop :=
  ∃ id, record.get? idKey = some id ∧ doc.keyJson.Yields id

/-- The document is stored as the record, its key as the id, and nothing is drawn for it. -/
structure StoredAs (doc : Document) (record : Object) : Prop where
  whole : ∃ stored, doc.toStorage.Yields stored ∧ ∀ key, stored.get? key = record.get? key
  key : doc.KeyedAs record

end Document

theorem Drawing.Alike.yields_iff {α : Type} {x y : Drawing α} (h : x.Alike y) {a : α} :
    x.Yields a ↔ y.Yields a :=
  forall_congr' fun s => h s a s

namespace FirstSaved

variable {c : Catalog} {d saved full : Document} {patch : Patch} {id : Json} {n : Nat}
  {collection : String} {f : Field}

/-- The id of the record is not null. -/
theorem id_not_null (h : FirstSaved c d saved full patch id n) : id.isNull = false := by
  rw [← h.given]
  cases hid : patch.sets.id? with
  | none => rfl
  | some j =>
    rw [Object.id?, Option.filter_eq_some_iff] at hid
    simpa using hid.2

/-- What the record has under the name of the id was given to it as its id. -/
theorem eq_id_of_get? (h : FirstSaved c d saved full patch id n) {j : Json}
    (hj : patch.sets.get? idKey = some j) : j = id := by
  rw [← h.given, Document.id?_of_fullPatch h.form, hj, Option.getD_some]

theorem get?_record (h : FirstSaved c d saved full patch id n) (key : String) :
    (Store.insertedForm patch.sets id).get? key =
      if idKey = key then some id else patch.sets.get? key := by
  split
  · rename_i hkey
    rw [← hkey, Store.get?_idKey_insertedForm h.given]
  · rename_i hkey
    exact Store.get?_insertedForm_of_ne _ _ (Ne.symm hkey)

/-- The saved document is keyed as its record if its key is stored as the id. -/
theorem keyedAs_iff (h : FirstSaved c d saved full patch id n) :
    saved.KeyedAs (Store.insertedForm patch.sets id) ↔ saved.keyJson.Yields id := by
  rw [Document.KeyedAs, h.get?_record, if_pos rfl]
  simp

/-- The inserted document has stored its key. -/
theorem key_stored (h : FirstSaved c d saved full patch id n) (hf : f ∈ full.type.fields) :
    ∃ j, (f.storedBy (encodersOf full.values)).Gives j := by
  obtain ⟨declared, -, hdeclared, -⟩ := Document.gives_writings h.form
  obtain ⟨j, hj, -⟩ := (gives_writeFields hdeclared).2 f hf
  exact ⟨j, hj⟩

/-- The saved document stores its key as the inserted one did, without its marks. -/
theorem saved_keyJson (h : FirstSaved c d saved full patch id n)
    (hfield : full.type.primaryKeyField? = some f) {v : Value}
    (hv : Entries.get? (full.keyed c id).values f.name = some v) :
    saved.keyJson = v.unmarked.encode f := by
  have hsaved : saved.type.primaryKeyField? = some f := by rwa [h.saved_type]
  rw [Document.keyJson_eq hsaved, h.get?_saved, hv, Option.map_some]

/-- The inserted document has stored its key as the saved one does. -/
theorem yields_keyed_keyJson (h : FirstSaved c d saved full patch id n)
    (hfield : full.type.primaryKeyField? = some f) (hf : f ∈ full.type.fields)
    (hkey : full.type.primaryKey = some f.name) (hid : saved.keyJson.Yields id) :
    (full.keyed c id).keyJson.Yields id := by
  suffices ∃ j, (full.keyed c id).keyJson.Gives j by
    obtain ⟨j, hj⟩ := this
    exact ((Document.keyJson_alikeIf _ _ False.elim h.resembles
      (.inr ⟨⟨j, hj⟩, id, hid.gives⟩)).yields_iff).mpr hid
  cases hv : full.primaryKey? with
  | some v =>
    have hvalue := Document.get?_of_primaryKey? hkey hv
    obtain ⟨j, hj⟩ := h.key_stored hf
    rw [Document.storedBy_of_value hvalue] at hj
    rw [Document.keyed_of_key hv, Document.keyJson_eq hfield, hvalue]
    exact ⟨j, hj⟩
  | none =>
    have hread := Document.get?_keyed_of_no_key c id hv hkey
    rw [Document.keyFromStore_eq c id hfield] at hread
    have hkeyed : (full.keyed c id).type.primaryKeyField? = some f := by rwa [Document.keyed_type]
    rw [h.saved_keyJson hfield hread, Field.decode_unmarked] at hid
    rw [Document.keyJson_eq hkeyed, hread]
    exact ⟨id, hid.gives⟩

/-- **A document whose key is the id of the record is stored as the record** before its marks are
forgotten. -/
theorem yields_keyed (h : FirstSaved c d saved full patch id n)
    (hc : full.type.collection = some collection) (hs : full.Settled)
    (hid : saved.keyJson.Yields id) :
    ∃ patch', (full.keyed c id).fullPatch.Yields patch' ∧ ∀ other,
      patch'.sets.get? other = (Store.insertedForm patch.sets id).get? other := by
  obtain ⟨f, hf, hkey, hfield, hstored⟩ := hs.built.exists_keyField hc
  have hkeyed := h.yields_keyed_keyJson hfield hf hkey hid
  cases hv : full.primaryKey? with
  | some v =>
    rw [Document.keyed_of_key hv] at hkeyed ⊢
    have hvalue := Document.get?_of_primaryKey? hkey hv
    have hkeyJson : full.keyJson = v.encode f := by rw [Document.keyJson_eq hfield, hvalue]
    rw [hkeyJson, ← Document.storedBy_of_value hvalue] at hkeyed
    have hsome := Document.isSome_get?_idKey hf hstored h.form
      (fun j hj => hkeyed.eq_of_gives hj) h.id_not_null
    obtain ⟨j, hj⟩ := Option.isSome_iff_exists.mp hsome
    refine ⟨patch, full.fullPatch_drawsNothing h.complete hs _ h.form, fun other => ?_⟩
    rw [h.get?_record]
    split
    · rename_i hother
      rw [← hother, hj, h.eq_id_of_get? hj]
    · rfl
  | none =>
    rw [Document.keyed_of_no_key hv hkey] at hkeyed ⊢
    have hvalue : ((full.keyFromStore c id).encode f).Yields id := by
      rwa [Document.keyJson_put hfield] at hkeyed
    obtain ⟨patch', hyields, hget⟩ := Document.yields_put_key h.complete hs hf hstored hkey hv
      h.form hvalue h.id_not_null fun j => h.eq_id_of_get?
    exact ⟨patch', hyields, fun other => by rw [hget, h.get?_record]⟩

section

variable (hc : full.type.collection = some collection) (hs : full.Settled)

include hc hs

/-- A saved document is stored as its record if its key is the id of the record, under pure rules or
as far as it can be stored at all. -/
theorem storedAs_of_keyedAs (h : FirstSaved c d saved full patch id n)
    (hkeyed : saved.KeyedAs (Store.insertedForm patch.sets id))
    (hstores : saved.HasPureRules ∨ ∃ stored, saved.toStorage.Gives stored) :
    saved.StoredAs (Store.insertedForm patch.sets id) := by
  refine ⟨?_, hkeyed⟩
  obtain ⟨patch', hyields, hget⟩ := h.yields_keyed hc hs (h.keyedAs_iff.mp hkeyed)
  have halike : saved.fullPatch.Alike (full.keyed c id).fullPatch := by
    refine Document.fullPatch_alikeIf _ _ (fun hpure => hpure) h.resembles.symm ?_
    refine hstores.imp_right fun ⟨stored, hstored⟩ => ?_
    obtain ⟨whole, hwhole, -⟩ := Gives.of_bind hstored
    exact ⟨⟨whole, hwhole⟩, patch', hyields.gives⟩
  exact ⟨patch'.sets, (halike.yields_iff.mpr hyields).bind (.pure _), hget⟩

/-- **A saved document is stored as its record if its key is the id of the record** and it can be
stored at all. -/
theorem storedAs_iff (h : FirstSaved c d saved full patch id n) :
    saved.StoredAs (Store.insertedForm patch.sets id) ↔
      saved.KeyedAs (Store.insertedForm patch.sets id) ∧ ∃ stored, saved.toStorage.Gives stored := by
  refine ⟨fun hstored => ⟨hstored.key, ?_⟩, fun ⟨hkeyed, hstores⟩ =>
    h.storedAs_of_keyedAs hc hs hkeyed (.inr hstores)⟩
  obtain ⟨stored, hyields, -⟩ := hstored.whole
  exact ⟨stored, hyields.gives⟩

/-- Under pure rules it can be stored. -/
theorem storedAs_iff_of_pure (h : FirstSaved c d saved full patch id n)
    (hpure : saved.HasPureRules) :
    saved.StoredAs (Store.insertedForm patch.sets id) ↔
      saved.KeyedAs (Store.insertedForm patch.sets id) :=
  ⟨fun hstored => hstored.key, fun hkeyed => h.storedAs_of_keyedAs hc hs hkeyed (.inl hpure)⟩

end

end FirstSaved

/-! ### Keys that fit -/

namespace Document

/-- The key of the document is stored as something, when its marks are forgotten; without a key, the
key field stores the id that the store makes up. -/
def KeyFits (doc : Document) (c : Catalog) (made : Json) : Prop :=
  ∃ f, doc.type.primaryKeyField? = some f ∧
    match doc.primaryKey? with
    | some v => ∃ j, (v.unmarked.encode f).Gives j ∧ j.isNull = false
    | none => f.StoresId c made

end Document

namespace FirstSaved

variable {c : Catalog} {d saved full : Document} {patch : Patch} {id : Json} {n : Nat}
  {collection : String} {f : Field}

section

variable (hs : full.Settled) (hf : f ∈ full.type.fields) (hstored : f.storageName = idKey)
  (hfree : full.type.field? idKey = none → Entries.get? full.values idKey = none)

include hs hf hstored hfree

/-- What the key field stores is the id of the record, unless it is null. -/
theorem eq_id_of_stored (h : FirstSaved c d saved full patch id n) {j : Json}
    (hj : (f.storedBy (encodersOf full.values)).Yields j) (hnull : j.isNull = false) : j = id := by
  obtain ⟨j', hj'⟩ := Option.isSome_iff_exists.mp
    (Document.isSome_get?_idKey hf hstored h.form (fun j' hj' => hj.eq_of_gives hj') hnull)
  have hgives := (Document.gives_of_get?_idKey hs.built hf hstored hfree h.form hj').1
  rw [← h.eq_id_of_get? hj', hj.eq_of_gives hgives]

/-- Without a key the store makes up the id of the record. -/
theorem madeId_of_no_key (h : FirstSaved c d saved full patch id n)
    (hkey : full.type.primaryKey = some f.name) (hnone : full.primaryKey? = none) :
    Store.madeId n = id := by
  have hempty : patch.sets.get? idKey = none := by
    refine Option.eq_none_iff_forall_not_mem.mpr fun j hj => ?_
    obtain ⟨hgives, hnull⟩ := Document.gives_of_get?_idKey hs.built hf hstored hfree h.form hj
    rw [Document.null_of_no_key hs.built h.complete hf hkey hnone hgives] at hnull
    cases hnull
  rw [← h.given, Document.id?_of_fullPatch h.form, hempty, Option.getD_none]

end

/-- **When the key of a saved document is the id of its record**, as long as no undeclared attribute
is spelled like the id. -/
theorem keyedAs_iff_keyFits (h : FirstSaved c d saved full patch id n)
    (hc : full.type.collection = some collection) (hs : full.Settled)
    (hfree : full.type.field? idKey = none → Entries.get? full.values idKey = none) :
    saved.KeyedAs (Store.insertedForm patch.sets id) ↔ full.KeyFits c (Store.madeId n) := by
  obtain ⟨f, hf, hkey, hfield, hstored⟩ := hs.built.exists_keyField hc
  rw [h.keyedAs_iff, Document.KeyFits]
  simp only [hfield, Option.some.injEq, exists_eq_left']
  cases hv : full.primaryKey? with
  | some v =>
    have hvalue := Document.get?_of_primaryKey? hkey hv
    have hstoredBy := Document.storedBy_of_value hvalue
    rw [h.saved_keyJson hfield (by rw [Document.keyed_of_key hv, hvalue])]
    refine ⟨fun hid => ⟨id, hid.gives, h.id_not_null⟩, fun ⟨j, hj, hnull⟩ => ?_⟩
    -- The whole document was stored, so its key was, and then the marks make no difference.
    obtain ⟨i, hi⟩ := h.key_stored hf
    rw [hstoredBy] at hi
    have halike : (v.unmarked.encode f).Alike (v.encode f) :=
      v.unmarked.encode_alikeIf v f False.elim False.elim v.unmarked_unmarked
        (.inr ⟨⟨j, hj⟩, i, hi⟩)
    have hyields := hs.storedBy h.complete hf j (hstoredBy ▸ halike.gives hj)
    obtain rfl := h.eq_id_of_stored hs hf hstored hfree hyields hnull
    rw [hstoredBy] at hyields
    exact halike.yields_iff.mpr hyields
  | none =>
    obtain rfl := h.madeId_of_no_key hs hf hstored hfree hkey hv
    rw [h.saved_keyJson hfield (Document.get?_keyed_of_no_key c _ hv hkey),
      Document.keyFromStore_eq c _ hfield, Field.decode_unmarked]
    exact Field.yields_encode_decode_text c (Store.not_instant_madeId n)

end FirstSaved

/-! ### First saves -/

/-- A record was added at the end of a collection, and the other collections are as they were. -/
structure Store.Added (before after : Store) (collection : String) (record : Object) : Prop where
  documents : after.documents collection = before.documents collection ++ [record]
  others : ∀ name, name ≠ collection → after.documents name = before.documents name

/-- **What a first save leaves behind.** It has added one record, which the saved document has taken
over as the state of reference; the document is no longer new, and nothing in it counts as changed.
If the keys of its links draw nothing, it is stored as that record again, embedded documents
included, as soon as its key is stored as the id and it can be stored at all; and under pure rules it
always can. The key is stored as the id if it is stored as something, and without a key if the key
field stores the id that the store has made up; here no undeclared attribute may be spelled like the
id, because it would be taken for the id. -/
theorem Document.save_first_record (c : Catalog) {d saved : Document} {s t : Session}
    (ht : d.type.Built) (hnew : d.isNew = true) (h : d.save c s = (saved, .ok (), t)) :
    ∃ (collection : String) (record raw : Object) (full : Document),
      d.type.collection = some collection ∧ s.store.Added t.store collection record ∧
      saved.raw = some raw ∧ (∀ key, raw.get? key = record.get? key) ∧
      saved.isNew = false ∧ saved.changedPaths = .empty ∧
      d.completed.Gives full ∧
      (full.Settled →
        (saved.StoredAs record ↔
          saved.KeyedAs record ∧ ∃ stored, saved.toStorage.Gives stored) ∧
        (saved.HasPureRules → (saved.StoredAs record ↔ saved.KeyedAs record)) ∧
        ((full.type.field? idKey = none → Entries.get? full.values idKey = none) →
          (saved.KeyedAs record ↔ full.KeyFits c (Store.madeId s.store.issued)))) := by
  obtain ⟨hsavedNew, -, hclean, -⟩ := save_cases h
  cases hc : d.type.collection with
  | none => simp [save, hc] at h
  | some collection =>
    obtain ⟨full, patch, id, hfirst, hdocuments, hothers⟩ := save_eq_ok_of_new ht hnew hc h
    have hfullCollection : full.type.collection = some collection := hfirst.type ▸ hc
    refine ⟨collection, Store.insertedForm patch.sets id, patch.sets.insert idKey id, full, rfl,
      ⟨hdocuments, hothers⟩, by rw [hfirst.saved]; rfl, fun key => ?_, hsavedNew, hclean,
      hfirst.completed, fun hs => ⟨?_, fun hpure => ?_, fun hfree => ?_⟩⟩
    · rw [Entries.get?_insert, hfirst.get?_record]
    · exact hfirst.storedAs_iff hfullCollection hs
    · exact hfirst.storedAs_iff_of_pure hfullCollection hs hpure
    · exact hfirst.keyedAs_iff_keyFits hfullCollection hs hfree

/-- A new row without a key. -/
def unsavedRow : Document :=
  (Document.new rowType).assign [("n", .int 1), ("title", .string "new")]

theorem savedRow_hasPureRules : (unsavedRow.save .empty .empty).1.HasPureRules := by
  refine Document.hasPureRules_of_leaves (fun e he => ?_) fun f hf => ?_
  · have hvalues : (unsavedRow.save .empty .empty).1.values =
      [("id", .string "<id-1>"), ("n", .int 1), ("title", .string "new")] := rfl
    rw [hvalues] at he
    revert e
    simp [Value.IsLeaf]
  · change f ∈ rowType.fields at hf
    revert f
    simp only [rowType, List.forall_mem_cons, List.not_mem_nil, false_implies, implies_true,
      and_true]
    exact ⟨Field.hasPureRules_of_unchecked rfl rfl, Field.hasPureRules_of_unchecked rfl rfl,
      Field.hasPureRules_of_unchecked rfl rfl⟩

/-- A row without a key is stored as its record again, because the key field takes made-up ids. -/
theorem save_first_record_unsavedRow :
    let saved := (unsavedRow.save .empty .empty).1
    let after := (unsavedRow.save .empty .empty).2.2
    unsavedRow.type.Built ∧ unsavedRow.isNew = true ∧
      unsavedRow.save .empty .empty = (saved, .ok (), after) ∧
      ∃ record, Store.empty.Added after.store "rows" record ∧ saved.StoredAs record := by
  have hsave : unsavedRow.save .empty .empty = ((unsavedRow.save .empty .empty).1, .ok (),
      (unsavedRow.save .empty .empty).2.2) := rfl
  have hcompleted : unsavedRow.completed.Yields unsavedRow := fun _ => rfl
  obtain ⟨collection, record, -, full, hc, hadded, -, -, -, -, hfull, hiff⟩ :=
    Document.save_first_record .empty rowType_built rfl hsave
  obtain rfl := hcompleted.eq_of_gives hfull
  obtain rfl : "rows" = collection := Option.some.inj hc
  obtain ⟨-, hpure, hkey⟩ := hiff ⟨rowType_built, trivial, trivial, trivial⟩
  have hfits : unsavedRow.KeyFits .empty (Store.madeId 0) :=
    ⟨_, rfl, rfl, .inr (.inr rfl)⟩
  exact ⟨rowType_built, rfl, hsave, record, hadded,
    (hpure savedRow_hasPureRules).mpr ((hkey fun _ => rfl).mpr hfits)⟩

/-- Rows that are counted by a number, which is their key. -/
def countedRowType : DocumentType where
  name := "Row"
  className := "Row"
  collection := some "rows"
  fields := [{ Field.ofKind "n" (.scalar .int) with storageName := idKey },
    .ofKind "title" (.scalar .string)]
  primaryKey := some "n"
  isDynamic := false
  allowsInheritance := false
  superclass := none

theorem countedRowType_built : countedRowType.Built := by
  let plain : Declaration := ((Declaration.document "Row").inCollection "rows").withPrimaryKey "n"
  exact ⟨(plain.withField (.ofKind "n" (.scalar .int))).withField
    (.ofKind "title" (.scalar .string)), rfl⟩

/-- A row that is not counted yet can be saved, but it gets a text as its number, and neither its key
nor the row can be stored afterwards. -/
theorem countedRow_not_storedAs :
    let row := Document.new countedRowType
    let saved := (row.save .empty .empty).1
    let after := (row.save .empty .empty).2.2
    let refused : Error := .validation "n" (.notScalar "string" "Int")
    countedRowType.Built ∧ row.isNew = true ∧ row.save .empty .empty = (saved, .ok (), after) ∧
      saved.toStorage.runFrom after.supply = (.error refused, after.supply) ∧
      saved.keyJson.runFrom after.supply = (.error refused, after.supply) ∧
      ∀ record, ¬ saved.StoredAs record := by
  refine ⟨countedRowType_built, rfl, rfl, rfl, rfl, fun record hstored => ?_⟩
  obtain ⟨stored, hyields, -⟩ := hstored.whole
  have hrun := hyields .fresh
  cases hrun

end DocumentMapper
