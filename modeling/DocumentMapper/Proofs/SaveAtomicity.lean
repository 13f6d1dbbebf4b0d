import DocumentMapper.Proofs.SaveStages

/-!
# What a failed save leaves behind

A save that fails should leave no trace: every collection as it was, and the document new or with
the changed paths that it had (`Document.FailsCleanly`). A new document is encoded before anything
is stored, and a loaded one is validated, and its patch and its key are drawn, before the update.
But a loaded document is encoded as a whole only after the update. When that encoding fails, on an
attribute that the patch does not touch, the update has already been made
(`Document.FailsAfterSending`).

## Main results

* `Document.save_error_keeps_changes`: after every failed save the document is new or has the same
  changed paths;
* `Document.save_failsCleanly_iff`: a save fails cleanly unless it fails after sending.
-/

namespace DocumentMapper

namespace Document

/-- A failed save leaves every collection as it was, and the document new or with the changed paths
that it had. -/
def FailsCleanly (c : Catalog) (d : Document) (s : Session) : Prop :=
  ∀ after cause t, d.save c s = (after, .error cause, t) →
    (∀ name, t.store.documents name = s.store.documents name) ∧
      (after.isNew = true ∨ after.changedPaths = d.changedPaths)

/-- The document is not new, its patch changes the record that answers to its key, and afterwards
the document cannot be encoded as a whole. -/
def FailsAfterSending (d : Document) (s : Session) : Prop :=
  ∃ collection patch id u v, d.type.collection = some collection ∧ d.isNew = false ∧
    d.validate = .ok () ∧ d.incrementalPatch.runFrom s.supply = (.ok patch, u) ∧
    patch.isEmpty = false ∧ d.keyJson.runFrom u = (.ok id, v) ∧
    (∃ i record record', FirstMeeting [(idKey, id)] (s.store.documents collection) i ∧
      (s.store.documents collection)[i]? = some record ∧
      record.updated [(idKey, id)] patch.toUpdate = .ok record' ∧ record' ≠ record) ∧
    ∃ cause, (d.toStorage.runFrom v).1 = .error cause

/-! ### After any failed save -/

/-- A failed save returns a new document as a new one and any other document as it was. -/
theorem save_error_document {c : Catalog} {d after : Document} {s t : Session} {cause : Error}
    (h : d.save c s = (after, .error cause, t)) : after.isNew = true ∨ after = d := by
  rcases save_eq_error h with ⟨rfl, -⟩ | ⟨_, -, ⟨_, hnew, -⟩ | ⟨-, rfl, -⟩⟩
  · exact .inr rfl
  · exact .inl hnew
  · exact .inr rfl

/-- **A failed save forgets no change**: the document is new or has the same changed paths. -/
theorem save_error_keeps_changes {c : Catalog} {d after : Document} {s t : Session} {cause : Error}
    (h : d.save c s = (after, .error cause, t)) :
    after.isNew = true ∨ after.changedPaths = d.changedPaths := by
  rcases save_error_document h with hnew | rfl
  · exact .inl hnew
  · exact .inr rfl

/-- A failed save of a document that is not new failed before its changes were sent, or afterwards
on encoding the document. -/
theorem updateIn_eq_error {d : Document} {collection : String} {s t : Session} {cause : Error}
    (h : (d.updateIn collection).runFrom s = (.error cause, t)) :
    (d.sendChanges collection).runFrom s = (.error cause, t) ∨
      ∃ u, (d.sendChanges collection).runFrom s = (.ok true, u) ∧ t.store = u.store ∧
        (d.toStorage.runFrom u.supply).1 = .error cause := by
  rw [updateIn_eq, Work.runFrom_bind_eq_error] at h
  rcases h with h | ⟨sent, u, hsent, h⟩
  · exact .inl h
  · cases sent with
    | false => simp at h
    | true =>
      simp only [↓reduceIte, Work.runFrom_bind_eq_error, Work.runFrom_drawing, Prod.mk.injEq,
        Work.runFrom_pure, reduceCtorEq, false_and, and_false, exists_false, or_false] at h
      exact .inr ⟨u, hsent, by rw [← h.2], h.1⟩

/-! ### Sending without a trace -/

/-- A document that fails after sending has changed a collection. -/
theorem FailsAfterSending.save_eq {c : Catalog} {d : Document} {s : Session}
    (h : d.FailsAfterSending s) :
    ∃ collection cause t, d.save c s = (d, .error cause, t) ∧
      t.store.documents collection ≠ s.store.documents collection := by
  obtain ⟨collection, patch, id, u, v, hc, hnew, hvalid, hpatch, hempty, hid,
    ⟨i, record, record', hfirst, hrecord, hu, hne⟩, cause, hcause⟩ := h
  have hsent := sendChanges_of_first hvalid hpatch hempty hid hfirst hrecord hu
  refine ⟨collection, cause, ⟨s.store.setDocuments collection
    ((s.store.documents collection).set i record'), (d.toStorage.runFrom v).2⟩, ?_, ?_⟩
  · rw [save_of_loaded c s hnew hc, updateIn_eq, Work.runFrom_bind, hsent]
    simp [hcause, Except.map]
  · rw [Store.documents_setDocuments_self]
    intro hsame
    have hset : ((s.store.documents collection).set i record')[i]? = some record := by
      rw [hsame, hrecord]
    obtain ⟨hi, -⟩ := List.getElem?_eq_some_iff.mp hrecord
    rw [List.getElem?_set_self hi] at hset
    exact hne (Option.some.inj hset)

/-- Changes that were sent have left the collections alone, unless they changed the record that
answers to the key of the document. -/
theorem sendChanges_store_cases {d : Document} {collection : String} {s t : Session}
    (h : (d.sendChanges collection).runFrom s = (.ok true, t)) :
    (∀ name, t.store.documents name = s.store.documents name) ∨
      ∃ patch id u, d.validate = .ok () ∧ d.incrementalPatch.runFrom s.supply = (.ok patch, u) ∧
        patch.isEmpty = false ∧ d.keyJson.runFrom u = (.ok id, t.supply) ∧
        ∃ i record record', FirstMeeting [(idKey, id)] (s.store.documents collection) i ∧
          (s.store.documents collection)[i]? = some record ∧
          record.updated [(idKey, id)] patch.toUpdate = .ok record' ∧ record' ≠ record := by
  obtain ⟨hvalid, patch, u, hpatch, hsame | ⟨id, result, -, hempty, hid, hupdate⟩⟩ :=
    sendChanges_eq_ok h
  · cases hsame.1
  · obtain ⟨hothers, ⟨-, hsame⟩ | ⟨i, record, record', hfirst, hrecord, hu, hset⟩⟩ :=
      Store.documents_update_ok hupdate
    · refine .inl fun name => ?_
      by_cases hname : name = collection
      · rw [hname, hsame]
      · exact hothers name hname
    · by_cases hne : record' = record
      · refine .inl fun name => ?_
        by_cases hname : name = collection
        · obtain ⟨hi, rfl⟩ := List.getElem?_eq_some_iff.mp hrecord
          rw [hname, hset, hne, List.set_getElem_self]
        · exact hothers name hname
      · exact .inr ⟨patch, id, u, hvalid, hpatch, hempty, hid, i, record, record', hfirst, hrecord,
          hu, hne⟩

/-- **A save fails cleanly unless it fails after sending**: the one way in which a failed save
leaves something behind is that the changes of a loaded document have been written before it turns
out that the document cannot be encoded as a whole. -/
theorem save_failsCleanly_iff (c : Catalog) (d : Document) (s : Session) (ht : d.type.Built) :
    d.FailsCleanly c s ↔ ¬ d.FailsAfterSending s := by
  constructor
  · intro hclean hfails
    obtain ⟨collection, cause, t, hsave, hne⟩ := hfails.save_eq (c := c)
    exact hne ((hclean d cause t hsave).1 collection)
  · intro hfails after cause t h
    refine ⟨fun name => ?_, save_error_keeps_changes h⟩
    rcases save_eq_error h with
      ⟨-, rfl⟩ | ⟨collection, hc, ⟨u, -, htype, hstore, hinsert⟩ | ⟨hnew, -, hupdate⟩⟩
    · rfl
    · rw [← hstore]
      exact insertInto_eq_error (htype ▸ ht) (htype ▸ hc) hinsert name
    · rcases updateIn_eq_error hupdate with hfail | ⟨u, hsent, hstore, hencode⟩
      · exact sendChanges_eq_error hfail name
      · rcases sendChanges_store_cases hsent with hsame | ⟨patch, id, w, hvalid, hpatch, hempty,
          hid, hrecord⟩
        · rw [hstore, hsame name]
        · exact absurd ⟨collection, patch, id, w, u.supply, hc, hnew, hvalid, hpatch, hempty,
            hid, hrecord, cause, hencode⟩ hfails

end Document

/-- A row whose number is a text in the store, with a new title. -/
def retitledRow : Document :=
  (loadedRow (storedRow "a" (.string "many") "old")).assign [("title", .string "new")]

/-- The store of that row. -/
def retitledSession : Session :=
  rowSession [storedRow "a" (.string "many") "old"]

theorem save_failsCleanly_iff_retitledRow :
    rowType.Built ∧ (retitledRow.FailsCleanly .empty retitledSession ↔
      ¬ retitledRow.FailsAfterSending retitledSession) :=
  ⟨rowType_built, Document.save_failsCleanly_iff .empty retitledRow retitledSession rowType_built⟩

/-- The new title is sent, and only then the number is found to be no whole number. -/
theorem retitledRow_failsAfterSending : retitledRow.FailsAfterSending retitledSession := by
  refine ⟨"rows", ⟨[("title", .string "new")], []⟩, .string "a", .fresh, .fresh, rfl, rfl, rfl, rfl,
    rfl, rfl, ⟨0, storedRow "a" (.string "many") "old", storedRow "a" (.string "many") "new",
      ⟨⟨_, rfl, rfl⟩, ?_⟩, rfl, rfl, ?_⟩, .validation "n" (.notScalar "string" "Int"), rfl⟩
  · intro j hj
    omega
  · simp [storedRow]

theorem retitledRow_not_failsCleanly : ¬ retitledRow.FailsCleanly .empty retitledSession := by
  obtain ⟨collection, cause, t, hsave, hne⟩ :=
    retitledRow_failsAfterSending.save_eq (c := .empty)
  intro hclean
  exact hne ((hclean retitledRow cause t hsave).1 collection)

end DocumentMapper
