import DocumentMapper.Store.Update

/-!
# Updating one record

An update that is not asked to change every record changes the first one that meets its filter and
no other. `FirstMeeting` says where that record stands, and `Object.updated` what becomes of it: an
update whose outcome equals the record leaves the record as it was.

## Main results

* `changeMeeting_of_first`: what such an update does to a list of records;
* `changeMeeting_of_error`: when it fails, the records are as before;
* `sent_of_changeMeeting`, `Sent.first`: when it ends well, it was sent to the first record that
  meets the filter, if there is one;
* `Store.update_of_first`: what it does to the collections of a store.
-/

namespace DocumentMapper

/-! ### Collections of a store -/

namespace Store

@[simp] theorem documents_setDocuments_self (s : Store) (name : String) (docs : List Object) :
    (s.setDocuments name docs).documents name = docs := by
  simp [documents, setDocuments]

/-- Writing one collection leaves every other collection alone. -/
theorem documents_setDocuments_of_ne (s : Store) {name other : String} (docs : List Object)
    (h : name ≠ other) : (s.setDocuments name docs).documents other = s.documents other := by
  simp [documents, setDocuments, Entries.get?_insert_of_ne _ _ h]

/-- Writing back what a collection holds changes no collection. -/
theorem documents_setDocuments_same (s : Store) (name other : String) :
    (s.setDocuments name (s.documents name)).documents other = s.documents other := by
  by_cases h : name = other
  · subst h
    exact documents_setDocuments_self s name _
  · exact documents_setDocuments_of_ne s _ h

end Store

/-! ### Inserting one record -/

namespace Store

/-- A record is added under an id that is new in the collection, and only then. -/
theorem appendNew_eq_ok {s t : Store} {collection : String} {id : Json} {doc : Object} :
    s.appendNew collection id doc = .ok t ↔
      s.hasId collection id = false ∧ s.append collection doc = t := by
  unfold appendNew
  cases s.hasId collection id with
  | true => simp [throw, throwThe, MonadExceptOf.throw]
  | false => simp [pure, Except.pure]

/-- An insertion of one record that fails changes no collection. -/
theorem documents_insert_error {s t : Store} {collection : String} {doc : Object}
    {cause : StoreError} (h : Store.insert collection [doc] s = (.error cause, t)) (name : String) :
    t.documents name = s.documents name := by
  cases hid : doc.id? with
  | some id =>
    simp only [Store.insert, hid] at h
    split at h
    · simp [Except.map] at h
    · simp only [Prod.mk.injEq] at h
      rw [← h.2]
  | none =>
    simp only [Store.insert, hid, issue] at h
    split at h
    · simp [Except.map] at h
    · simp only [Prod.mk.injEq] at h
      rw [← h.2]
      rfl

/-- The form in which a record is inserted: one without an id gets the given one in front. -/
def insertedForm (doc : Object) (id : Json) : Object :=
  if doc.id?.isSome then doc else doc.withIdFirst id

/-- An insertion of one record that ends well adds it at the end of its collection, under an id that
is new there, and changes nothing else. -/
theorem documents_insert_ok {s t : Store} {collection : String} {doc : Object} {ids : List Json}
    (h : Store.insert collection [doc] s = (.ok ids, t)) :
    ∃ id, ids = [id] ∧ doc.id?.getD (madeId s.issued) = id ∧ s.hasId collection id = false ∧
      t.documents collection = s.documents collection ++ [insertedForm doc id] ∧
      ∀ name, name ≠ collection → t.documents name = s.documents name := by
  cases hid : doc.id? with
  | some id =>
    simp only [Store.insert, hid] at h
    split at h
    · rename_i u happend
      obtain ⟨hnew, rfl⟩ := appendNew_eq_ok.mp happend
      simp only [Except.map, Prod.mk.injEq, Except.ok.injEq] at h
      obtain ⟨rfl, rfl⟩ := h
      refine ⟨id, rfl, rfl, hnew, ?_, fun name hname => ?_⟩
      · simp [append, insertedForm, hid]
      · exact documents_setDocuments_of_ne s _ hname.symm
    · simp at h
  | none =>
    simp only [Store.insert, hid, issue] at h
    split at h
    · rename_i u happend
      obtain ⟨hnew, rfl⟩ := appendNew_eq_ok.mp happend
      simp only [Except.map, Prod.mk.injEq, Except.ok.injEq] at h
      obtain ⟨rfl, rfl⟩ := h
      refine ⟨madeId s.issued, rfl, rfl, hnew, ?_, fun name hname => ?_⟩
      · simp only [append, insertedForm, hid, documents_setDocuments_self]
        rfl
      · exact documents_setDocuments_of_ne _ _ hname.symm
    · simp at h

end Store

/-! ### The record that is changed -/

/-- The record at a position is the first one that meets a filter. -/
def FirstMeeting (filter : Object) (docs : List Object) (i : Nat) : Prop :=
  (∃ doc, docs[i]? = some doc ∧ doc.meets filter = .ok true) ∧
    ∀ j < i, ∃ other, docs[j]? = some other ∧ other.meets filter = .ok false

/-- No record meets a filter. -/
def NoneMeeting (filter : Object) (docs : List Object) : Prop :=
  ∀ doc ∈ docs, doc.meets filter = .ok false

/-- What an update makes of a record that meets its filter. -/
def Object.updated (doc filter update : Object) : Except StoreError Object :=
  let applied := doc.apply filter update false
  (applied.result doc).map fun changed => if changed then applied.doc else doc

/-- At most one record is the first to meet a filter. -/
theorem FirstMeeting.unique {filter : Object} {docs : List Object} {i j : Nat}
    (hi : FirstMeeting filter docs i) (hj : FirstMeeting filter docs j) : i = j := by
  obtain ⟨⟨a, ha, hma⟩, hfa⟩ := hi
  obtain ⟨⟨b, hb, hmb⟩, hfb⟩ := hj
  rcases Nat.lt_trichotomy i j with h | h | h
  · obtain ⟨c, hc, hmc⟩ := hfb i h
    rw [ha] at hc
    cases hc
    rw [hma] at hmc
    cases hmc
  · exact h
  · obtain ⟨c, hc, hmc⟩ := hfa j h
    rw [hb] at hc
    cases hc
    rw [hmb] at hmc
    cases hmc

/-- Where one record meets a filter it is not so that none does. -/
theorem FirstMeeting.not_none {filter : Object} {docs : List Object} {i : Nat}
    (h : FirstMeeting filter docs i) : ¬ NoneMeeting filter docs := by
  obtain ⟨⟨doc, hdoc, hmeets⟩, -⟩ := h
  intro hnone
  have := hnone doc (List.mem_of_getElem? hdoc)
  rw [hmeets] at this
  cases this

/-- The first meeting behind a record that does not meet the filter is one further. -/
theorem FirstMeeting.cons {filter doc : Object} {rest : List Object} {i : Nat}
    (hdoc : doc.meets filter = .ok false) (h : FirstMeeting filter rest i) :
    FirstMeeting filter (doc :: rest) (i + 1) := by
  obtain ⟨hmeets, hfront⟩ := h
  refine ⟨by simpa using hmeets, fun j hj => ?_⟩
  cases j with
  | zero => exact ⟨doc, rfl, hdoc⟩
  | succ j =>
    obtain ⟨other, ho, hm⟩ := hfront j (by omega)
    exact ⟨other, by simpa using ho, hm⟩

/-! ### Changing the records of a list -/

/-- The first record that meets the filter is replaced by what the update makes of it. -/
theorem changeMeeting_of_first {filter : Object} (update : Object) {docs : List Object} {i : Nat}
    {doc : Object} (tally : Tally) (h : FirstMeeting filter docs i) (hdoc : docs[i]? = some doc) :
    (∃ cause, doc.updated filter update = .error cause ∧
        changeMeeting filter update false docs tally = (.error cause, docs)) ∨
      ∃ doc' tally', doc.updated filter update = .ok doc' ∧
        changeMeeting filter update false docs tally = (.ok tally', docs.set i doc') := by
  induction docs generalizing i with
  | nil => simp at hdoc
  | cons first rest ih =>
    obtain ⟨⟨d, hd, hmeets⟩, hfront⟩ := h
    obtain rfl : d = doc := Option.some.inj (hd.symm.trans hdoc)
    cases i with
    | zero =>
      obtain rfl : first = d := by simpa using hdoc
      cases hresult : (first.apply filter update false).result first with
      | error cause =>
        refine .inl ⟨cause, ?_, ?_⟩
        · simp [Object.updated, hresult, Except.map]
        · simp [changeMeeting, hmeets, hresult]
      | ok changed =>
        refine .inr ⟨if changed then (first.apply filter update false).doc else first,
          ⟨tally.matched + 1, tally.modified + (if changed then 1 else 0)⟩, ?_, ?_⟩
        · simp [Object.updated, hresult, Except.map]
        · simp [changeMeeting, hmeets, hresult]
    | succ i =>
      obtain ⟨other, ho, hfirst⟩ := hfront 0 (by omega)
      obtain rfl : first = other := by simpa using ho
      have hrest : FirstMeeting filter rest i := by
        refine ⟨⟨d, by simpa using hdoc, hmeets⟩, fun j hj => ?_⟩
        simpa using hfront (j + 1) (by omega)
      rcases ih hrest (by simpa using hdoc) with ⟨cause, hu, hc⟩ | ⟨doc', tally', hu, hc⟩
      · exact .inl ⟨cause, hu, by simp [changeMeeting, hfirst, hc]⟩
      · exact .inr ⟨doc', tally', hu, by simp [changeMeeting, hfirst, hc]⟩

/-- An update that ends with an error has left the records as they were. -/
theorem changeMeeting_of_error {filter update : Object} {docs docs' : List Object} {tally : Tally}
    {cause : StoreError}
    (h : changeMeeting filter update false docs tally = (.error cause, docs')) : docs' = docs := by
  induction docs generalizing docs' with
  | nil => simp [changeMeeting] at h
  | cons doc rest ih =>
    cases hdoc : doc.meets filter with
    | error cause' =>
      simp only [changeMeeting, hdoc, Prod.mk.injEq] at h
      exact h.2.symm
    | ok holds =>
      cases holds with
      | true =>
        simp only [changeMeeting, hdoc] at h
        split at h
        · simp only [Prod.mk.injEq] at h
          exact h.2.symm
        · simp at h
      | false =>
        rcases hrest : changeMeeting filter update false rest tally with ⟨result, docs⟩
        simp only [changeMeeting, hdoc, hrest, Prod.mk.injEq] at h
        obtain ⟨rfl, rfl⟩ := h
        rw [ih hrest]

/-- An update under a filter is sent to a list of records: it changes the first one that meets the
filter, if there is one. -/
inductive Sent (filter update : Object) : List Object → List Object → Prop
  | nowhere : Sent filter update [] []
  | here {doc doc' : Object} {rest : List Object} (hmeets : doc.meets filter = .ok true)
      (hu : doc.updated filter update = .ok doc') : Sent filter update (doc :: rest) (doc' :: rest)
  | behind {doc : Object} {rest rest' : List Object} (hmeets : doc.meets filter = .ok false)
      (hrest : Sent filter update rest rest') : Sent filter update (doc :: rest) (doc :: rest')

/-- An update of one record that ends well has been sent. -/
theorem sent_of_changeMeeting {filter update : Object} {docs docs' : List Object}
    {tally tally' : Tally}
    (h : changeMeeting filter update false docs tally = (.ok tally', docs')) :
    Sent filter update docs docs' := by
  induction docs generalizing docs' with
  | nil =>
    cases h
    exact .nowhere
  | cons doc rest ih =>
    cases hmeets : doc.meets filter with
    | error cause => simp [changeMeeting, hmeets] at h
    | ok holds =>
      cases holds with
      | true =>
        simp only [changeMeeting, hmeets, Bool.false_eq_true, ↓reduceIte] at h
        cases hresult : (doc.apply filter update false).result doc with
        | error cause => simp [hresult] at h
        | ok changed =>
          rw [hresult] at h
          simp only [Prod.mk.injEq] at h
          rw [← h.2]
          refine .here hmeets ?_
          simp [Object.updated, hresult, Except.map]
      | false =>
        rcases hrest : changeMeeting filter update false rest tally with ⟨result, rest'⟩
        simp only [changeMeeting, hmeets, hrest, Prod.mk.injEq] at h
        obtain ⟨rfl, rfl⟩ := h
        exact .behind hmeets (ih hrest)

namespace Sent

variable {filter update : Object} {docs docs' : List Object}

/-- An update that can be sent ends well. -/
theorem changeMeeting (h : Sent filter update docs docs') (tally : Tally) :
    ∃ tally', changeMeeting filter update false docs tally = (.ok tally', docs') := by
  induction h with
  | nowhere => exact ⟨tally, rfl⟩
  | @here doc doc' rest hmeets hu =>
    cases hresult : (doc.apply filter update false).result doc with
    | error cause =>
      simp only [Object.updated, hresult] at hu
      cases hu
    | ok changed =>
      simp only [Object.updated, hresult] at hu
      cases hu
      exact ⟨⟨tally.matched + 1, tally.modified + (if changed then 1 else 0)⟩,
        by simp [DocumentMapper.changeMeeting, hmeets, hresult]⟩
  | @behind doc rest rest' hmeets _ ih =>
    obtain ⟨tally', hrest⟩ := ih
    exact ⟨tally', by simp [DocumentMapper.changeMeeting, hmeets, hrest]⟩

/-- What is sent has changed the first record that meets the filter, if there is one. -/
theorem first (h : Sent filter update docs docs') :
    (NoneMeeting filter docs ∧ docs' = docs) ∨
      ∃ i doc doc', FirstMeeting filter docs i ∧ docs[i]? = some doc ∧
        doc.updated filter update = .ok doc' ∧ docs' = docs.set i doc' := by
  induction h with
  | nowhere => exact .inl ⟨by simp [NoneMeeting], rfl⟩
  | @here doc doc' rest hmeets hu =>
    exact .inr ⟨0, doc, doc', ⟨⟨doc, rfl, hmeets⟩, by simp⟩, rfl, hu, rfl⟩
  | behind hmeets _ ih =>
    rcases ih with ⟨hnone, rfl⟩ | ⟨i, d, d', hfirst, hd, hu, rfl⟩
    · exact .inl ⟨List.forall_mem_cons.mpr ⟨hmeets, hnone⟩, rfl⟩
    · exact .inr ⟨i + 1, d, d', hfirst.cons hmeets, by simpa using hd, hu, rfl⟩

end Sent

/-- An update that ends well has changed the first record that meets the filter, if there is one. -/
theorem changeMeeting_eq_ok {filter update : Object} {docs docs' : List Object}
    {tally tally' : Tally}
    (h : changeMeeting filter update false docs tally = (.ok tally', docs')) :
    (NoneMeeting filter docs ∧ docs' = docs) ∨
      ∃ i doc doc', FirstMeeting filter docs i ∧ docs[i]? = some doc ∧
        doc.updated filter update = .ok doc' ∧ docs' = docs.set i doc' :=
  (sent_of_changeMeeting h).first

/-! ### Updating a collection -/

namespace Store

/-- An update of one record that ends with an error changes no collection. -/
theorem documents_update_error {s t : Store} {collection : String} {filter update : Object}
    {cause : StoreError}
    (h : s.update collection filter update ⟨false, false⟩ = (.error cause, t)) (name : String) :
    t.documents name = s.documents name := by
  unfold Store.update at h
  rcases hc : changeMeeting filter update false (s.documents collection) ⟨0, 0⟩ with ⟨result, docs⟩
  cases result with
  | error cause' =>
    simp only [hc, Prod.mk.injEq] at h
    obtain rfl := changeMeeting_of_error hc
    rw [← h.2]
    exact documents_setDocuments_same s collection name
  | ok tally => simp [hc] at h

/-- An update of one record that ends well has changed the first record of its collection that meets
the filter, if there is one, and nothing else. -/
theorem documents_update_ok {s t : Store} {collection : String} {filter update : Object}
    {result : UpdateResult}
    (h : s.update collection filter update ⟨false, false⟩ = (.ok result, t)) :
    (∀ name, name ≠ collection → t.documents name = s.documents name) ∧
      ((NoneMeeting filter (s.documents collection) ∧
          t.documents collection = s.documents collection) ∨
        ∃ i doc doc', FirstMeeting filter (s.documents collection) i ∧
          (s.documents collection)[i]? = some doc ∧ doc.updated filter update = .ok doc' ∧
          t.documents collection = (s.documents collection).set i doc') := by
  unfold Store.update at h
  rcases hc : changeMeeting filter update false (s.documents collection) ⟨0, 0⟩ with ⟨tally, docs⟩
  cases tally with
  | error cause => simp [hc] at h
  | ok tally =>
    simp only [hc, Bool.and_false, Bool.false_eq_true, ↓reduceIte, Prod.mk.injEq] at h
    rw [← h.2]
    refine ⟨fun name hname => documents_setDocuments_of_ne s docs hname.symm, ?_⟩
    rw [documents_setDocuments_self]
    exact changeMeeting_eq_ok hc

/-- An update of one record succeeds where the first record that meets the filter can be updated. -/
theorem update_of_first {s : Store} {collection : String} {filter update doc doc' : Object} {i : Nat}
    (h : FirstMeeting filter (s.documents collection) i)
    (hdoc : (s.documents collection)[i]? = some doc) (hu : doc.updated filter update = .ok doc') :
    ∃ result, s.update collection filter update ⟨false, false⟩ =
      (.ok result, s.setDocuments collection ((s.documents collection).set i doc')) := by
  rcases changeMeeting_of_first update ⟨0, 0⟩ h hdoc with
    ⟨cause, hu', -⟩ | ⟨d, tally, hu', hc⟩
  · rw [hu] at hu'
    cases hu'
  · rw [hu] at hu'
    cases hu'
    exact ⟨⟨tally.matched, tally.modified, none⟩, by simp [Store.update, hc]⟩

end Store

end DocumentMapper
