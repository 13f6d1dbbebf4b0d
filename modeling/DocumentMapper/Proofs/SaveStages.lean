import DocumentMapper.Mapper.Save
import DocumentMapper.Proofs.BuiltTypes
import DocumentMapper.Proofs.Runs
import DocumentMapper.Proofs.SingleUpdate

/-!
# The stages of a save

Saving a new document fills in its defaults and inserts it; saving any other document sends its
changes and then takes over its stored form. `Document.sendChanges` is the first half of the second
case, up to the last step that concerns the store.

## Main results

* `Document.updateIn_eq`: an update sends the changes and then encodes the document once more;
* `Document.sendChanges_eq_ok`, `Document.sendChanges_eq_error`: what sending does to a store;
* `Document.insertInto_eq_error`: an insertion that fails has stored nothing;
* `Document.save_of_loaded`, `Document.save_of_new`: a save is one of the two;
* `Document.inserted_of_save`, `Document.save_eq_ok_of_loaded`, `Document.save_eq_error`: what a save
  has done.
-/

namespace DocumentMapper

namespace Document

/-! ### The two kinds of saves -/

/-- Filling in defaults changes nothing but the values. -/
theorem completed_eq_ok {d d' : Document} {s t : Supply} (h : d.completed.runFrom s = (.ok d', t)) :
    d'.type = d.type ∧ d'.dirty = d.dirty ∧ d'.raw = d.raw := by
  obtain ⟨type, values, dirty, raw⟩ := d
  simp only [completed, Drawing.runFrom_bind_eq_ok] at h
  obtain ⟨completions, u, -, values', v, -, h⟩ := h
  cases h
  exact ⟨rfl, rfl, rfl⟩

/-- What a save of a document that is not new comes down to. -/
theorem save_of_loaded (c : Catalog) {d : Document} {collection : String} (s : Session)
    (hnew : d.isNew = false) (hc : d.type.collection = some collection) :
    d.save c s =
      match (d.updateIn collection).runFrom s with
      | (.ok saved, t) => (saved, .ok (), t)
      | (.error cause, t) => (d, .error cause, t) := by
  rcases hrun : (d.updateIn collection).runFrom s with ⟨cause | saved, t⟩ <;>
    simp only [save, hc, hnew, Bool.false_eq_true, ↓reduceIte, Except.toOption, Option.getD_some,
      hrun]

/-- What a save of a new document comes down to: an insertion of the document with its defaults, as
far as these could be filled in. -/
theorem save_of_new (c : Catalog) {d : Document} {collection : String} (s : Session)
    (hnew : d.isNew = true) (hc : d.type.collection = some collection) :
    ∃ (full : Document) (t : Session), full.isNew = true ∧ full.type = d.type ∧
      t.store = s.store ∧
      d.save c s =
        match (full.insertInto c collection).runFrom t with
        | (.ok saved, u) => (saved, .ok (), u)
        | (.error cause, u) => (full, .error cause, u) := by
  rcases hrun : d.completed.runFrom s.supply with ⟨cause | full, supply⟩
  · refine ⟨d, { s with supply }, hnew, rfl, rfl, ?_⟩
    rcases hinsert : (d.insertInto c collection).runFrom { s with supply } with
      ⟨cause | saved, u⟩ <;>
      simp only [save, hc, hnew, ↓reduceIte, Work.runFrom_drawing, hrun, Except.toOption,
        Option.getD_none, hinsert]
  · obtain ⟨htype, -, hraw⟩ := completed_eq_ok hrun
    have hfull : full.isNew = true := by rw [isNew, hraw, ← isNew, hnew]
    refine ⟨full, { s with supply }, hfull, htype, rfl, ?_⟩
    rcases hinsert : (full.insertInto c collection).runFrom { s with supply } with
      ⟨cause | saved, u⟩ <;>
      simp only [save, hc, hnew, ↓reduceIte, Work.runFrom_drawing, hrun, Except.toOption,
        Option.getD_some, hfull, hinsert]

/-! ### Sending changes -/

/-- Sends what changed in a document to the store, and says whether there was anything to send. -/
def sendChanges (d : Document) (collection : String) : Work Bool := do
  .ofExcept d.validate
  let patch ← Work.drawing d.incrementalPatch
  if patch.isEmpty then return false
  else
    let id ← Work.drawing d.keyJson
    let _ ← Work.change fun store =>
      store.update collection [(idKey, id)] patch.toUpdate ⟨false, false⟩
    return true

/-- **An update sends the changes first** and encodes the document as a whole afterwards. -/
theorem updateIn_eq (d : Document) (collection : String) :
    d.updateIn collection = do
      if ← d.sendChanges collection then return d.persisted (← Work.drawing d.toStorage)
      else return d := by
  simp only [updateIn, sendChanges, bind_assoc]
  congr 1
  funext _
  congr 1
  funext patch
  split <;> simp

/-- Changes that could be sent: the patch was drawn, and unless it is empty the key too, and the
store took the update. -/
theorem sendChanges_eq_ok {d : Document} {collection : String} {s t : Session} {sent : Bool}
    (h : (d.sendChanges collection).runFrom s = (.ok sent, t)) :
    d.validate = .ok () ∧ ∃ patch u, d.incrementalPatch.runFrom s.supply = (.ok patch, u) ∧
      ((sent = false ∧ patch.isEmpty = true ∧ t = { s with supply := u }) ∨
        ∃ id result, sent = true ∧ patch.isEmpty = false ∧
          d.keyJson.runFrom u = (.ok id, t.supply) ∧
          s.store.update collection [(idKey, id)] patch.toUpdate ⟨false, false⟩ =
            (.ok result, t.store)) := by
  simp only [sendChanges, Work.runFrom_bind_eq_ok, Work.runFrom_ofExcept,
    Work.runFrom_drawing, Prod.mk.injEq] at h
  obtain ⟨_, _, ⟨hvalid, rfl⟩, patch, _, ⟨hpatch, rfl⟩, h⟩ := h
  refine ⟨hvalid, patch, (d.incrementalPatch.runFrom s.supply).2, Prod.ext hpatch rfl, ?_⟩
  split at h
  · rename_i hempty
    simp only [Work.runFrom_pure, Prod.mk.injEq, Except.ok.injEq] at h
    exact .inl ⟨h.1.symm, hempty, h.2.symm⟩
  · rename_i hempty
    simp only [Work.runFrom_bind_eq_ok, Work.runFrom_drawing, Work.runFrom_change,
      Work.runFrom_pure, Prod.mk.injEq, Except.ok.injEq] at h
    obtain ⟨id, _, ⟨hid, rfl⟩, result, _, ⟨hresult, rfl⟩, rfl, rfl⟩ := h
    refine .inr ⟨id, result, rfl, by simpa using hempty, Prod.ext hid rfl, ?_⟩
    exact Prod.ext (mapError_eq_ok.mp hresult) rfl

/-- Changes are sent where the document is valid, the patch and the key can be drawn, and the record
that answers to the key can be updated. -/
theorem sendChanges_of_first {d : Document} {collection : String} {s : Session} {patch : Patch}
    {id : Json} {u v : Supply} {i : Nat} {doc doc' : Object} (hvalid : d.validate = .ok ())
    (hpatch : d.incrementalPatch.runFrom s.supply = (.ok patch, u)) (hempty : patch.isEmpty = false)
    (hid : d.keyJson.runFrom u = (.ok id, v))
    (hfirst : FirstMeeting [(idKey, id)] (s.store.documents collection) i)
    (hdoc : (s.store.documents collection)[i]? = some doc)
    (hu : doc.updated [(idKey, id)] patch.toUpdate = .ok doc') :
    (d.sendChanges collection).runFrom s =
      (.ok true, ⟨s.store.setDocuments collection ((s.store.documents collection).set i doc'), v⟩) := by
  obtain ⟨result, hresult⟩ := Store.update_of_first hfirst hdoc hu
  simp [sendChanges, Work.runFrom_bind, hvalid, hpatch, hempty, hid, hresult, Except.map]

/-- A save succeeds where in addition the document can be encoded as a whole. -/
theorem save_of_first (c : Catalog) {d : Document} {collection : String} {s : Session}
    {patch : Patch} {id : Json} {u v w : Supply} {i : Nat} {doc doc' raw : Object}
    (hnew : d.isNew = false) (hc : d.type.collection = some collection)
    (hvalid : d.validate = .ok ())
    (hpatch : d.incrementalPatch.runFrom s.supply = (.ok patch, u)) (hempty : patch.isEmpty = false)
    (hid : d.keyJson.runFrom u = (.ok id, v))
    (hfirst : FirstMeeting [(idKey, id)] (s.store.documents collection) i)
    (hdoc : (s.store.documents collection)[i]? = some doc)
    (hu : doc.updated [(idKey, id)] patch.toUpdate = .ok doc')
    (hraw : d.toStorage.runFrom v = (.ok raw, w)) :
    d.save c s = (d.persisted raw, .ok (),
      ⟨s.store.setDocuments collection ((s.store.documents collection).set i doc'), w⟩) := by
  rw [save_of_loaded c s hnew hc, updateIn_eq, Work.runFrom_bind,
    sendChanges_of_first hvalid hpatch hempty hid hfirst hdoc hu]
  simp [hraw, Except.map]

/-- The same for a collection of one record. -/
theorem save_of_only (c : Catalog) {d : Document} {collection : String} {s : Session}
    {patch : Patch} {id : Json} {u v w : Supply} {doc doc' raw : Object}
    (hnew : d.isNew = false) (hc : d.type.collection = some collection)
    (hvalid : d.validate = .ok ())
    (hpatch : d.incrementalPatch.runFrom s.supply = (.ok patch, u)) (hempty : patch.isEmpty = false)
    (hid : d.keyJson.runFrom u = (.ok id, v)) (hdocs : s.store.documents collection = [doc])
    (hmeets : doc.meets [(idKey, id)] = .ok true)
    (hu : doc.updated [(idKey, id)] patch.toUpdate = .ok doc')
    (hraw : d.toStorage.runFrom v = (.ok raw, w)) :
    d.save c s =
      (d.persisted raw, .ok (), ⟨s.store.setDocuments collection [doc'], w⟩) := by
  have hfirst : FirstMeeting [(idKey, id)] (s.store.documents collection) 0 := by
    rw [hdocs]
    exact ⟨⟨doc, rfl, hmeets⟩, fun j hj => by omega⟩
  have hget : (s.store.documents collection)[0]? = some doc := by rw [hdocs]; rfl
  have hsave := save_of_first c hnew hc hvalid hpatch hempty hid hfirst hget hu hraw
  rw [hdocs] at hsave
  exact hsave

/-- Changes that could not be sent have changed no collection. -/
theorem sendChanges_eq_error {d : Document} {collection : String} {s t : Session} {cause : Error}
    (h : (d.sendChanges collection).runFrom s = (.error cause, t)) (name : String) :
    t.store.documents name = s.store.documents name := by
  simp only [sendChanges, Work.runFrom_bind_eq_error, Work.runFrom_ofExcept,
    Work.runFrom_drawing, Prod.mk.injEq] at h
  rcases h with ⟨-, rfl⟩ | ⟨_, _, ⟨-, rfl⟩, ⟨-, rfl⟩ | ⟨patch, _, ⟨-, rfl⟩, h⟩⟩
  · rfl
  · rfl
  · split at h
    · simp at h
    · simp only [Work.runFrom_bind_eq_error, Work.runFrom_drawing, Work.runFrom_change,
        Work.runFrom_pure, Prod.mk.injEq, reduceCtorEq, false_and, and_false, exists_false,
        or_false] at h
      rcases h with ⟨-, rfl⟩ | ⟨id, _, ⟨-, rfl⟩, hfail, rfl⟩
      · rfl
      · obtain ⟨cause', hcause⟩ := mapError_eq_error.mp hfail
        exact Store.documents_update_error (Prod.ext hcause.1 rfl) name

/-! ### Inserting a new document -/

/-- A type with a key takes any value for it. -/
theorem setKey_of_key {d : Document} {key : String} {v : Value}
    (hkey : d.type.primaryKey = some key) : d.setKey v = .ok (d.put key v) := by
  simp only [setKey, hkey]
  rfl

/-- An insertion that fails has stored nothing, if the type of the document was built: the key that
the store makes up then has a field to go to. -/
theorem insertInto_eq_error {c : Catalog} {d : Document} {collection : String} {s t : Session}
    {cause : Error} (ht : d.type.Built) (hc : d.type.collection = some collection)
    (h : (d.insertInto c collection).runFrom s = (.error cause, t)) (name : String) :
    t.store.documents name = s.store.documents name := by
  simp only [insertInto, Work.runFrom_bind_eq_error, Work.runFrom_ofExcept,
    Work.runFrom_drawing, Work.runFrom_change, Prod.mk.injEq] at h
  rcases h with ⟨-, rfl⟩ | ⟨_, _, ⟨-, rfl⟩, ⟨-, rfl⟩ | ⟨raw, _, ⟨-, rfl⟩, h⟩⟩
  · rfl
  · rfl
  · rcases h with ⟨hfail, rfl⟩ | ⟨ids, _, ⟨-, rfl⟩, h⟩
    · obtain ⟨cause', hcause, -⟩ := mapError_eq_error.mp hfail
      exact Store.documents_insert_error (Prod.ext hcause rfl) name
    · -- The store has taken the document, and nothing behind this point fails.
      obtain ⟨key, -, hkey, -⟩ := ht.primaryKeyField? hc
      exfalso
      split at h
      · simp at h
      · split at h
        · simp at h
        · simp [setKey_of_key hkey, Except.map] at h

/-! ### What a save has done -/

/-- **A save of a new document that ends well** has inserted it, with its defaults as far as these
could be filled in. -/
theorem inserted_of_save {c : Catalog} {d saved : Document} {s t : Session} (hnew : d.isNew = true)
    (h : d.save c s = (saved, .ok (), t)) :
    ∃ (collection : String) (full : Document) (u : Session),
      d.type.collection = some collection ∧ full.type = d.type ∧
      u.store = s.store ∧ (full.insertInto c collection).runFrom u = (.ok saved, t) := by
  cases hc : d.type.collection with
  | none => simp [save, hc] at h
  | some collection =>
    obtain ⟨full, u, -, htype, hstore, hsave⟩ := save_of_new c s hnew hc
    rw [hsave] at h
    split at h
    · rename_i hinsert
      simp only [Prod.mk.injEq, true_and] at h
      obtain ⟨rfl, rfl⟩ := h
      exact ⟨collection, full, u, rfl, htype, hstore, hinsert⟩
    · simp at h

/-- **A save of a loaded document that ends well** has sent the changes. If there were none it
returns the document as it was, and otherwise with its stored form. -/
theorem save_eq_ok_of_loaded {c : Catalog} {d saved : Document} {s t : Session}
    (hnew : d.isNew = false) (h : d.save c s = (saved, .ok (), t)) :
    ∃ collection sent u, d.type.collection = some collection ∧
      (d.sendChanges collection).runFrom s = (.ok sent, u) ∧ t.store = u.store ∧
      ((sent = false ∧ saved = d) ∨
        ∃ raw, sent = true ∧ d.toStorage.runFrom u.supply = (.ok raw, t.supply) ∧
          saved = d.persisted raw) := by
  cases hc : d.type.collection with
  | none => simp [save, hc] at h
  | some collection =>
    rw [save_of_loaded c s hnew hc] at h
    split at h
    · rename_i saved' t' hupdate
      simp only [Prod.mk.injEq, true_and] at h
      obtain ⟨rfl, rfl⟩ := h
      rw [updateIn_eq, Work.runFrom_bind_eq_ok] at hupdate
      obtain ⟨sent, u, hsent, hrest⟩ := hupdate
      refine ⟨collection, sent, u, rfl, hsent, ?_⟩
      cases sent with
      | false =>
        simp only [Bool.false_eq_true, ↓reduceIte, Work.runFrom_pure, Prod.mk.injEq,
          Except.ok.injEq] at hrest
        obtain ⟨rfl, rfl⟩ := hrest
        exact ⟨rfl, .inl ⟨rfl, rfl⟩⟩
      | true =>
        simp only [↓reduceIte, Work.runFrom_bind_eq_ok, Work.runFrom_drawing, Work.runFrom_pure,
          Prod.mk.injEq, Except.ok.injEq] at hrest
        obtain ⟨raw, _, ⟨hraw, rfl⟩, rfl, rfl⟩ := hrest
        exact ⟨rfl, .inr ⟨raw, rfl, Prod.ext hraw rfl, rfl⟩⟩
    · simp at h

/-- **A save that fails** had no collection to save in, or failed on inserting a new document, which
it returns as a new one, or on updating any other document, which it returns as it was. -/
theorem save_eq_error {c : Catalog} {d after : Document} {s t : Session} {cause : Error}
    (h : d.save c s = (after, .error cause, t)) :
    (after = d ∧ t = s) ∨ ∃ collection, d.type.collection = some collection ∧
      ((∃ u, after.isNew = true ∧ after.type = d.type ∧ u.store = s.store ∧
          (after.insertInto c collection).runFrom u = (.error cause, t)) ∨
        (d.isNew = false ∧ after = d ∧
          (d.updateIn collection).runFrom s = (.error cause, t))) := by
  cases hc : d.type.collection with
  | none =>
    simp only [save, hc, Prod.mk.injEq] at h
    exact .inl ⟨h.1.symm, h.2.2.symm⟩
  | some collection =>
    refine .inr ⟨collection, rfl, ?_⟩
    cases hnew : d.isNew with
    | true =>
      obtain ⟨full, u, hfull, htype, hstore, hsave⟩ := save_of_new c s hnew hc
      rw [hsave] at h
      split at h
      · simp at h
      · rename_i hinsert
        simp only [Prod.mk.injEq, Except.error.injEq] at h
        obtain ⟨rfl, rfl, rfl⟩ := h
        exact .inl ⟨u, hfull, htype, hstore, hinsert⟩
    | false =>
      rw [save_of_loaded c s hnew hc] at h
      split at h
      · simp at h
      · rename_i hupdate
        simp only [Prod.mk.injEq, Except.error.injEq] at h
        obtain ⟨rfl, rfl, rfl⟩ := h
        exact .inr ⟨rfl, rfl, hupdate⟩

end Document

/-! ### A type of rows

The general theorems about saves are applied to documents of this type. -/

/-- Rows with a number and a title. -/
def rowType : DocumentType where
  name := "Row"
  className := "Row"
  collection := some "rows"
  fields := [{ Field.ofKind "id" (.scalar .objectId) with storageName := idKey },
    .ofKind "n" (.scalar .int), .ofKind "title" (.scalar .string)]
  primaryKey := some "id"
  isDynamic := false
  allowsInheritance := false
  superclass := none

theorem rowType_built : rowType.Built := by
  let plain : Declaration := (Declaration.document "Row").inCollection "rows"
  exact ⟨(plain.withField (.ofKind "n" (.scalar .int))).withField
    (.ofKind "title" (.scalar .string)), rfl⟩

/-- A stored row. -/
def storedRow (id : String) (n : Json) (title : String) : Object :=
  [(idKey, .string id), ("n", n), ("title", .string title)]

/-- A session whose only collection has the given rows. -/
def rowSession (rows : List Object) : Session :=
  ⟨Store.empty.setDocuments "rows" rows, .fresh⟩

/-- A row as it is loaded. -/
def loadedRow (row : Object) : Document :=
  Document.ofStorage .empty rowType row

/-- The document after some assignments, as far as they are accepted. -/
def Document.assign (d : Document) (values : List (String × Value)) : Document :=
  values.foldl (fun d e => ((d.set e.1 e.2).toOption).getD d) d

end DocumentMapper
