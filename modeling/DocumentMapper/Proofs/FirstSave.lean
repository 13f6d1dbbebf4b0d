import DocumentMapper.Proofs.Completion
import DocumentMapper.Proofs.Content
import DocumentMapper.Proofs.OwnRecord
import DocumentMapper.Proofs.StoredDocuments
import DocumentMapper.Proofs.UnmarkedForms

/-!
# What the first save stores

A new document is completed and inserted as a whole. It is given the key that the store made up if
it has none, and the record that is stored gets an id in front if it has none. So the saved document
and its record can only differ at the primary key: every other attribute is stored in the form that
it has in the saved document (`FirstSaved.stores`).

At the primary key they agree as soon as the record answers to the key (`FirstSaved.storesKey`): the
id that the store makes up is a text, and a text that was read for a field is stored as a text
again.

## Main results

* `Document.save_eq_ok_of_new`: what a first save that ends well has done;
* `FirstSaved.complete`: the saved document waits for no default;
* `FirstSaved.stores`: the record stores the attributes of the saved document.
-/

namespace DocumentMapper

open Drawing

/-! ### The record of a new document -/

namespace Store

/-- The record that is inserted has the id. -/
theorem get?_idKey_insertedForm {doc : Object} {n : Nat} {id : Json}
    (h : doc.id?.getD (madeId n) = id) : (insertedForm doc id).get? idKey = some id := by
  unfold insertedForm
  cases hid : doc.id? with
  | some present =>
    rw [hid, Option.getD_some] at h
    rw [Object.id?, Option.filter_eq_some_iff] at hid
    simp [hid.1, h]
  | none => simp [Object.withIdFirst, Entries.get?]

/-- Beside the id the inserted record has what the document has. -/
theorem get?_insertedForm_of_ne (doc : Object) (id : Json) {key : String} (h : key ≠ idKey) :
    (insertedForm doc id).get? key = doc.get? key := by
  unfold insertedForm
  split
  · rfl
  · have hrest := Entries.get?_filter_ne doc idKey key
    rw [if_neg (Ne.symm h)] at hrest
    rw [Object.withIdFirst, Entries.get?_cons, if_neg (Ne.symm h), hrest]

/-- The record reads like the document with the id written into it. -/
theorem content_insertedForm {doc : Object} {n : Nat} {id : Json}
    (h : doc.id?.getD (madeId n) = id) :
    (insertedForm doc id).content = Object.content (doc.insert idKey id) := by
  simp only [Object.content, Json.content, Content.object.injEq]
  funext key
  rw [Entries.get?_content, Entries.get?_content, Entries.get?_insert]
  by_cases hkey : idKey = key
  · rw [if_pos hkey, ← hkey, get?_idKey_insertedForm h]
  · rw [if_neg hkey, get?_insertedForm_of_ne doc id (Ne.symm hkey)]

end Store

/-! ### The saved document -/

namespace Document

/-- The document with the key that belongs to an id, unless it has a key. -/
def keyed (c : Catalog) (d : Document) (id : Json) : Document :=
  match d.primaryKey?, d.type.primaryKey with
  | none, some key => d.put key (d.keyFromStore c id)
  | _, _ => d

theorem keyed_of_key {c : Catalog} {d : Document} {id : Json} {v : Value}
    (h : d.primaryKey? = some v) : d.keyed c id = d := by
  simp [keyed, h]

theorem keyed_of_no_key {c : Catalog} {d : Document} {id : Json} {key : String}
    (h : d.primaryKey? = none) (hkey : d.type.primaryKey = some key) :
    d.keyed c id = d.put key (d.keyFromStore c id) := by
  simp [keyed, h, hkey]

@[simp] theorem keyed_type (c : Catalog) (d : Document) (id : Json) :
    (d.keyed c id).type = d.type := by
  unfold keyed
  split <;> rfl

/-- A document without a key is given the one that is read from the id. -/
theorem get?_keyed_of_no_key (c : Catalog) {d : Document} (id : Json) {key : String}
    (h : d.primaryKey? = none) (hkey : d.type.primaryKey = some key) :
    Entries.get? (d.keyed c id).values key = some (d.keyFromStore c id) := by
  rw [keyed_of_no_key h hkey, put, Entries.get?_insertSorted_self]

/-- Beside the key the keyed document has the values of the document. -/
theorem get?_keyed_of_ne (c : Catalog) (d : Document) (id : Json) {name : String}
    (h : d.type.primaryKey ≠ some name) :
    Entries.get? (d.keyed c id).values name = Entries.get? d.values name := by
  unfold keyed
  split
  · rename_i key _ hkey
    have hne : key ≠ name := fun heq => h (by rw [hkey, heq])
    exact Entries.get?_insertSorted_of_ne _ _ hne
  · rfl

end Document

/-- An insertion gives the document its key and takes over its record. -/
theorem Document.insertInto_eq (c : Catalog) {d : Document} {collection : String}
    (ht : d.type.Built) (hc : d.type.collection = some collection) :
    d.insertInto c collection = do
      .ofExcept d.validate
      let raw ← Work.drawing d.toStorage
      match ← Work.change (Store.insert collection [raw]) with
      | [] => return d
      | id :: _ => return (d.keyed c id).persisted (raw.insert idKey id) := by
  obtain ⟨key, -, hkey, -⟩ := ht.primaryKeyField? hc
  unfold insertInto
  congr 1
  funext _
  congr 1
  funext raw
  congr 1
  funext ids
  cases ids with
  | nil => rfl
  | cons id _ =>
    cases hv : d.primaryKey? with
    | some v =>
      simp only [keyed_of_key hv]
      rfl
    | none =>
      simp only [keyed_of_no_key hv hkey, setKey_of_key hkey]
      rfl

/-- How a new document was saved: which document was inserted after the defaults were filled in, in
which form, and under which id. -/
structure FirstSaved (c : Catalog) (d saved full : Document) (patch : Patch) (id : Json)
    (n : Nat) : Prop where
  completed : d.completed.Gives full
  complete : full.Complete
  type : full.type = d.type
  form : full.fullPatch.Gives patch
  given : patch.sets.id?.getD (Store.madeId n) = id
  saved : saved = (full.keyed c id).persisted (patch.sets.insert idKey id)

namespace Document

/-- **What a first save that ends well has done.** -/
theorem save_eq_ok_of_new {c : Catalog} {d saved : Document} {s t : Session} {collection : String}
    (ht : d.type.Built) (hnew : d.isNew = true) (hc : d.type.collection = some collection)
    (h : d.save c s = (saved, .ok (), t)) :
    ∃ full patch id, FirstSaved c d saved full patch id s.store.issued ∧
      t.store.documents collection =
        s.store.documents collection ++ [Store.insertedForm patch.sets id] ∧
      ∀ name, name ≠ collection → t.store.documents name = s.store.documents name := by
  obtain ⟨full, supply, hrun, hcomplete⟩ := d.completed_ends s.supply
  obtain ⟨htype, -, hraw⟩ := completed_eq_ok hrun
  have hfull : full.isNew = true := by rw [isNew, hraw, ← isNew, hnew]
  simp only [save, hc, hnew, ↓reduceIte, Work.runFrom_drawing, hrun, Except.toOption,
    Option.getD_some, hfull] at h
  split at h
  · rename_i saved' u hinsert
    simp only [Prod.mk.injEq, true_and] at h
    obtain ⟨rfl, rfl⟩ := h
    rw [insertInto_eq c (htype ▸ ht) (htype ▸ hc)] at hinsert
    simp only [Work.runFrom_bind_eq_ok, Work.runFrom_ofExcept, Work.runFrom_drawing,
      Work.runFrom_change, Prod.mk.injEq] at hinsert
    obtain ⟨-, -, ⟨-, rfl⟩, raw, -, ⟨hstorage, rfl⟩, ids, -, ⟨hids, rfl⟩, hrest⟩ := hinsert
    obtain ⟨patch, hpatch, rfl⟩ : ∃ patch, full.fullPatch.Gives patch ∧ patch.sets = raw := by
      have hgives : full.toStorage.Gives raw := ⟨supply, _, Prod.ext hstorage rfl⟩
      obtain ⟨patch, hpatch, hraw⟩ := Gives.of_bind hgives
      exact ⟨patch, hpatch, (gives_pure.mp hraw).symm⟩
    obtain ⟨id, rfl, hid, -, hdocuments, hother⟩ :=
      Store.documents_insert_ok (Prod.ext (mapError_eq_ok.mp hids) rfl)
    simp only [Work.runFrom_pure, Prod.mk.injEq, Except.ok.injEq] at hrest
    obtain ⟨rfl, rfl⟩ := hrest
    exact ⟨full, patch, id, ⟨⟨_, _, hrun⟩, hcomplete, htype, hpatch, hid, rfl⟩, hdocuments,
      hother⟩
  · simp at h

end Document

/-! ### Keys that the store makes up -/

/-- What a text can be read as. -/
inductive Value.ReadFrom (text : String) : Value → Prop
  | string : ReadFrom text (.string text)
  | datetime (i : Time.Instant) : ReadFrom text (.datetime i)
  | reference (name : String) : ReadFrom text (.reference (.typed name (.string text)))

theorem Document.readFrom_keyFromStore (c : Catalog) (d : Document) (text : String) :
    (d.keyFromStore c (.string text)).ReadFrom text := by
  unfold keyFromStore
  cases d.type.primaryKeyField? with
  | none => exact .string
  | some f =>
    simp only [Field.decode, Json.decode]
    cases f.kind with
    | scalar s =>
      cases s with
      | datetime =>
        simp only [Scalar.decodeLeaf]
        split
        · exact .datetime _
        · exact .string
      | _ => exact .string
    | reference name => exact .reference name
    | _ => exact .string

namespace Value.ReadFrom

variable {text : String} {v : Value}

theorem complete (h : v.ReadFrom text) : v.Complete := by
  cases h <;> trivial

theorem unmarked (h : v.ReadFrom text) : v.unmarked = v := by
  cases h <;> rfl

/-- What a text was read as is stored as a text. -/
theorem string_of_encode (h : v.ReadFrom text) {f : Field} {j : Json} (hj : (v.encode f).Gives j) :
    ∃ stored, j = .string stored := by
  have hleaf : (f.encodeLeaf v).Gives j := by cases h <;> exact hj
  obtain ⟨-, -, hform⟩ := Gives.of_bind hleaf
  cases hkind : f.kind with
  | scalar s =>
    simp only [hkind, Field.encodeScalar] at hform
    cases h with
    | string =>
      cases s with
      | datetime =>
        simp only at hform
        split at hform
        · exact ⟨_, gives_pure.mp hform⟩
        · exact absurd hform not_gives_throw
      | any => exact ⟨_, gives_pure.mp hform⟩
      | string => exact ⟨_, gives_pure.mp hform⟩
      | objectId => exact ⟨_, gives_pure.mp hform⟩
      | _ => exact absurd hform not_gives_throw
    | datetime i =>
      cases s with
      | any => exact ⟨_, gives_pure.mp hform⟩
      | datetime => exact ⟨_, gives_pure.mp hform⟩
      | _ => exact absurd hform not_gives_throw
    | reference name =>
      cases s with
      | any => exact ⟨_, gives_pure.mp hform⟩
      | _ => exact absurd hform not_gives_throw
  | reference name =>
    simp only [hkind, Field.encodeId] at hform
    cases h with
    | string => exact ⟨_, gives_pure.mp hform⟩
    | datetime i => exact absurd hform not_gives_throw
    | reference name => exact ⟨_, gives_pure.mp hform⟩
  | embedded t =>
    simp only [hkind] at hform
    exact absurd hform not_gives_throw
  | genericReference =>
    simp only [hkind] at hform
    cases h <;> exact absurd hform not_gives_throw
  | list element =>
    simp only [hkind] at hform
    exact absurd hform not_gives_throw
  | dict element =>
    simp only [hkind] at hform
    exact absurd hform not_gives_throw

end Value.ReadFrom

/-- A text answers to a text only if they are the same, and never to null. -/
theorem eq_of_meets_text {record : Object} {text : String}
    (hid : record.get? idKey = some (.string text)) {j : Json}
    (hj : j = .null ∨ ∃ stored, j = .string stored) (h : record.meets [(idKey, j)] = .ok true) :
    j = .string text := by
  rcases hj with rfl | ⟨stored, rfl⟩
  · rw [meets_key record rfl, hid] at h
    simp [equalsAny, Json.sameValue, Json.equal, Json.isNumber, Json.asArray?] at h
  · rw [meets_key record rfl, hid] at h
    obtain rfl : text = stored := by
      simpa [equalsAny, Json.sameValue, Json.equal, Json.isNumber, Json.asArray?] using h
    rfl

/-! ### What is stored -/

/-- A document without key has no value for it, or null. -/
theorem Document.missing_of_no_key {d : Document} {key : String}
    (hkey : d.type.primaryKey = some key) (h : d.primaryKey? = none) :
    Entries.get? d.values key = none ∨ Entries.get? d.values key = some .null := by
  unfold primaryKey? at h
  rw [hkey, Option.bind_some] at h
  cases hv : Entries.get? d.values key with
  | none => exact .inl rfl
  | some v =>
    rw [hv] at h
    cases v <;> simp_all [Value.isNull]

namespace FirstSaved

variable {c : Catalog} {d saved full : Document} {patch : Patch} {id : Json} {n : Nat}
  {key : String}

theorem saved_type (h : FirstSaved c d saved full patch id n) : saved.type = full.type := by
  simp [h.saved, Document.persisted]

theorem saved_dirty (h : FirstSaved c d saved full patch id n) : saved.dirty = .empty := by
  simp [h.saved, Document.persisted]

theorem saved_values (h : FirstSaved c d saved full patch id n) :
    saved.values = unmarkedEntries (full.keyed c id).values := by
  simp [h.saved, Document.persisted]

theorem get?_saved (h : FirstSaved c d saved full patch id n) (name : String) :
    Entries.get? saved.values name =
      (Entries.get? (full.keyed c id).values name).map Value.unmarked := by
  rw [h.saved_values, get?_unmarkedEntries]

/-- Nothing is marked in the values of the saved document. -/
theorem unmarked_of_get? (h : FirstSaved c d saved full patch id n) {name : String} (v : Value)
    (hv : Entries.get? saved.values name = some v) : v.unmarked = v := by
  rw [h.get?_saved] at hv
  obtain ⟨w, -, rfl⟩ := Option.map_eq_some_iff.mp hv
  exact w.unmarked_unmarked

/-- The saved document is the inserted one with its key, up to marks. -/
theorem resembles (h : FirstSaved c d saved full patch id n) :
    (full.keyed c id).Resembles saved := by
  refine ⟨by rw [h.saved_type, Document.keyed_type], ?_⟩
  rw [h.saved_values, unmarkedEntries_unmarkedEntries]

/-- The saved document has the attributes of the inserted one. -/
theorem hasAttribute (h : FirstSaved c d saved full patch id n) {name : String}
    (hname : full.HasAttribute name) : saved.HasAttribute name := by
  rcases hname with hvalue | hfield
  · refine .inl ?_
    rw [h.get?_saved, Option.isSome_map]
    unfold Document.keyed
    split
    · simp only [Document.put, Entries.get?_insertSorted]
      split
      · rfl
      · exact hvalue
    · exact hvalue
  · refine .inr ?_
    rwa [h.saved_type]

theorem storedName (h : FirstSaved c d saved full patch id n) (name : String) :
    saved.storedName name = full.storedName name := by
  simp only [Document.storedName, Place.inDocument, Place.storageName, h.saved_type]

/-- The inserted document stores its attributes apart if the saved one does. -/
theorem storedApart (h : FirstSaved c d saved full patch id n) (hapart : saved.StoredApart) :
    full.StoredApart := by
  refine ⟨h.saved_type ▸ hapart.type, ?_, fun a b ha hb hab => ?_, fun hclass name hname => ?_⟩
  · have hnodup := hapart.values
    rw [h.saved_values, map_fst_unmarkedEntries] at hnodup
    refine hnodup.sublist ?_
    unfold Document.keyed
    split
    · exact Entries.keys_sublist_insertSorted _ _ _
    · exact List.Sublist.refl _
  · rw [← h.storedName, ← h.storedName] at hab
    exact hapart.injective a b (h.hasAttribute ha) (h.hasAttribute hb) hab
  · rw [← h.storedName]
    exact hapart.apartFromClass (h.saved_type ▸ hclass) name (h.hasAttribute hname)

/-- The inserted document stores its attributes. -/
theorem full_stores (h : FirstSaved c d saved full patch id n) (hapart : saved.StoredApart) :
    full.Stores patch.sets :=
  Document.stores_of_fullPatch h.form ((Document.complete_iff full).mp h.complete).1
    (h.storedApart hapart)

/-- An attribute lives where it did before the key was filled in, unless it is the key. -/
theorem inDocument_keyed {name : String}
    (hname : full.keyed c id = full ∨ full.type.primaryKey ≠ some name) :
    Place.inDocument (full.keyed c id) name = Place.inDocument full name := by
  rcases hname with hsame | hne
  · rw [hsame]
  · rw [Place.inDocument, Place.inDocument, Document.get?_keyed_of_ne c full id hne,
      Document.keyed_type]

/-- A record that answers to what was stored for the key, has this as its id. -/
theorem get?_idKey_of_meets (h : FirstSaved c d saved full patch id n) {j : Json}
    (hget : patch.sets.get? idKey = j.unlessNull)
    (hmeets : (Store.insertedForm patch.sets id).meets [(idKey, j)] = .ok true) :
    (Store.insertedForm patch.sets id).get? idKey = j.unlessNull := by
  have hrecord := Store.get?_idKey_insertedForm h.given
  by_cases hnull : j.isNull = true
  · -- A key that is stored as null does not find the id that the store made up.
    have hempty : patch.sets.id? = none := by
      rw [Object.id?, hget, Json.unlessNull, if_pos hnull]
      rfl
    obtain rfl : Store.madeId n = id := by rw [← h.given, hempty, Option.getD_none]
    have hisNull : j = .null := by cases j <;> simp_all [Json.isNull]
    have heq := eq_of_meets_text hrecord (.inl hisNull) hmeets
    rw [heq] at hnull
    cases hnull
  · have hsome : patch.sets.id? = some j := by
      rw [Object.id?, hget, Json.unlessNull, if_neg hnull]
      simp [hnull]
    have hgiven := h.given
    rw [hsome, Option.getD_some] at hgiven
    rw [hrecord, Json.unlessNull, if_neg hnull, hgiven]

section

variable (hkey : full.type.primaryKey = some key) {f : Field}
  (hfield : full.type.field? key = some f) (hid : full.storedName key = idKey)

include hfield hid

/-- What the inserted document has stored for its key. -/
theorem get?_idKey (h : FirstSaved c d saved full patch id n) (hapart : saved.StoredApart) :
    ∃ j, (Place.inDocument full key).toJson.Gives j ∧ patch.sets.get? idKey = j.unlessNull := by
  rw [← hid]
  exact (h.full_stores hapart).attributes key (.inr (by rw [hfield]; rfl))

include hkey

/-- Without a key the store makes up an id. -/
theorem id_of_no_key (h : FirstSaved c d saved full patch id n) (hapart : saved.StoredApart)
    (hnone : full.primaryKey? = none) : id = Store.madeId n := by
  obtain ⟨j, hj, hget⟩ := h.get?_idKey hfield hid hapart
  obtain rfl := Place.eq_null_of_missing (Document.missing_of_no_key hkey hnone) hj
  have hempty : patch.sets.id? = none := by
    rw [Object.id?, hget]
    rfl
  rw [← h.given, hempty, Option.getD_none]

/-- The document with its key is complete. -/
theorem keyed_complete (h : FirstSaved c d saved full patch id n) (hapart : saved.StoredApart) :
    (full.keyed c id).Complete := by
  cases hv : full.primaryKey? with
  | some v =>
    rw [Document.keyed_of_key hv]
    exact h.complete
  | none =>
    obtain ⟨hdefaults, hvalues⟩ := (Document.complete_iff full).mp h.complete
    rw [Document.keyed_of_no_key hv hkey, h.id_of_no_key hkey hfield hid hapart hv]
    refine (Document.complete_iff _).mpr ⟨fun name g hg hnone => ?_, fun e he => ?_⟩
    · refine hdefaults name g hg ?_
      simp only [Document.put, Entries.get?_insertSorted] at hnone
      split at hnone
      · cases hnone
      · exact hnone
    · rcases Entries.mem_insertSorted he with he | rfl
      · exact hvalues e he
      · exact (Document.readFrom_keyFromStore c full _).complete

/-- **The saved document keeps the promise** before anything is marked. -/
theorem tracks (h : FirstSaved c d saved full patch id n) (hapart : saved.StoredApart) :
    Tracks .empty [] (some (.document saved)) (some (.document saved)) := by
  have hcomplete := h.keyed_complete hkey hfield hid hapart
  have hsaved : saved =
      { full.keyed c id with raw := some (patch.sets.insert idKey id) : Document }.unmarked := by
    rw [h.saved, Document.persisted]
    cases full.keyed c id
    rfl
  rw [hsaved]
  refine Document.tracks_unmarked _ ?_ (DirtyPaths.nothingAt_empty [])
  revert hcomplete
  cases full.keyed c id
  exact fun hcomplete => hcomplete

/-- **The record has the key as its id** as soon as it answers to it. -/
theorem storesKey (h : FirstSaved c d saved full patch id n) (hapart : saved.StoredApart) {j : Json}
    (hdetermined : (Place.inDocument saved key).toJson.Determined)
    (hj : (Place.inDocument saved key).toJson.Gives j)
    (hmeets : (Store.insertedForm patch.sets id).meets [(idKey, j)] = .ok true) :
    (Place.inDocument (full.keyed c id) key).toJson.Gives j ∧
      (Store.insertedForm patch.sets id).get? idKey = j.unlessNull := by
  cases hv : full.primaryKey? with
  | some v =>
    obtain ⟨j₀, hj₀, hget⟩ := h.get?_idKey hfield hid hapart
    have hkeyed : full.keyed c id = full := Document.keyed_of_key hv
    rw [← inDocument_keyed (.inl hkeyed)] at hj₀
    obtain rfl := (h.resembles.inDocument key).eq_of_determined hdetermined hj₀ hj
    exact ⟨hj₀, h.get?_idKey_of_meets hget hmeets⟩
  | none =>
    have hmade := h.id_of_no_key hkey hfield hid hapart hv
    have hread := Document.readFrom_keyFromStore c full ("<id-" ++ toString (n + 1) ++ ">")
    have hvalue : Entries.get? (full.keyed c id).values key =
        some (full.keyFromStore c (Store.madeId n)) := by
      rw [Document.get?_keyed_of_no_key c id hv hkey, hmade]
    have hsame : Place.inDocument (full.keyed c id) key = Place.inDocument saved key := by
      rw [Place.inDocument, Place.inDocument, h.resembles.type, h.get?_saved, hvalue, Option.map_some]
      exact congrArg (fun v => Place.mk _ (some v)) hread.unmarked.symm
    rw [← hsame] at hj
    have hplace : Place.inDocument (full.keyed c id) key =
        ⟨some f, some (full.keyFromStore c (Store.madeId n))⟩ := by
      simp only [Place.inDocument, hvalue, Document.keyed_type, DocumentType.describe?, hfield]
    obtain hstored := hread.string_of_encode (hplace ▸ hj)
    refine ⟨hj, ?_⟩
    have hrecord := Store.get?_idKey_insertedForm h.given
    rw [hmade] at hrecord hmeets ⊢
    rw [hrecord, eq_of_meets_text hrecord (.inr hstored) hmeets]
    rfl

/-- **The record stores the attributes of the saved document**, if it stores the key. -/
theorem stores (h : FirstSaved c d saved full patch id n) (hapart : saved.StoredApart) {j : Json}
    (hj : (Place.inDocument (full.keyed c id) key).toJson.Gives j)
    (hget : (Store.insertedForm patch.sets id).get? idKey = j.unlessNull) :
    saved.StoredUpToMarks (Store.insertedForm patch.sets id) := by
  have hfull := h.full_stores hapart
  have hattribute : saved.HasAttribute key := .inr (by rw [h.saved_type, hfield]; rfl)
  refine ⟨full.keyed c id, h.resembles, fun name hname => ?_, fun other hother => ?_⟩
  · rw [h.resembles.storedName, h.storedName]
    rw [h.resembles.hasAttribute] at hname
    by_cases hsame : name = key
    · rw [hsame, hid]
      exact ⟨j, hj, hget⟩
    · have hne : full.type.primaryKey ≠ some name := by
        rw [hkey]
        exact fun heq => hsame (Option.some.inj heq).symm
      have hname' : full.HasAttribute name := by
        rcases hname with hvalue | hfield
        · refine .inl ?_
          rwa [h.get?_saved, Option.isSome_map, Document.get?_keyed_of_ne c full id hne] at hvalue
        · exact .inr (h.saved_type ▸ hfield)
      have hstored : full.storedName name ≠ idKey := by
        intro heq
        rw [← hid, ← h.storedName, ← h.storedName] at heq
        exact hsame (hapart.injective name key hname hattribute heq)
      obtain ⟨j', hj', hget'⟩ := hfull.attributes name hname'
      refine ⟨j', ?_, ?_⟩
      · rwa [inDocument_keyed (.inr hne)]
      · rw [Store.get?_insertedForm_of_ne _ _ hstored, hget']
  · simp only [h.resembles.hasAttribute, h.resembles.storedName] at hother
    have hne : other ≠ idKey := by
      rintro rfl
      exact hother key hattribute (by rw [h.storedName, hid])
    rw [Store.get?_insertedForm_of_ne _ _ hne, hfull.other other fun name hname => by
      rw [← h.storedName]
      exact hother name (h.hasAttribute hname), Document.keyed_type]

end

end FirstSaved

end DocumentMapper
