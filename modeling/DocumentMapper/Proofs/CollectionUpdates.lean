import DocumentMapper.Proofs.RecordKeys

/-!
# Updating the records of a collection

An update goes through the records of a collection from the front. It passes over those that do not
meet its filter, changes the first one that does, or every one, and stops where a record has no
answer or cannot be changed. `Sweeps` says which way it has gone, and what it has counted.

Wherever it stops, every record is what it was or what the update makes of it as a whole. Records are
neither added nor lost, and they keep their places.

## Main results

* `sweeps_changeMeeting`: an update of a list of records goes one of the ways of `Sweeps`;
* `Sweeps.unchanged`, `Sweeps.completed`, `Sweeps.stopped`: what it leaves alone, what it has done
  when it ends well, and where it stops otherwise;
* `Sweeps.tally`: what it counts;
* `Store.update_whole_records`: what an update does to a store that is not asked to insert anything.
-/

namespace DocumentMapper

/-! ### Counting -/

namespace Tally

/-- Two counts together. -/
def plus (a b : Tally) : Tally :=
  ⟨a.matched + b.matched, a.modified + b.modified⟩

/-- The count of one record that meets the filter. -/
def ofRecord (doc doc' : Object) : Tally :=
  ⟨1, if doc'.equal doc then 0 else 1⟩

@[simp] theorem zero_plus (a : Tally) : plus ⟨0, 0⟩ a = a := by
  simp [plus]

theorem plus_assoc (a b c : Tally) : (a.plus b).plus c = a.plus (b.plus c) := by
  simp [plus, Nat.add_assoc]

end Tally

/-- How many records meet a filter. -/
def countMeeting (filter : Object) (docs : List Object) : Nat :=
  docs.countP fun doc => (doc.meets filter).toOption == some true

/-- How many records have become different. -/
def countChanged (docs docs' : List Object) : Nat :=
  (docs.zip docs').countP fun p => !p.2.equal p.1

/-- A record that stays is none that has become different. -/
theorem countChanged_cons_self {doc : Object} (hdoc : doc.WellFormed) (docs docs' : List Object) :
    countChanged (doc :: docs) (doc :: docs') = countChanged docs docs' := by
  have hself : doc.equal doc = true := Json.WellFormed.equal_self (j := .object doc) hdoc
  simp [countChanged, hself]

theorem countChanged_self {docs : List Object} (hdocs : ∀ doc ∈ docs, doc.WellFormed) :
    countChanged docs docs = 0 := by
  induction docs with
  | nil => rfl
  | cons doc docs ih =>
    obtain ⟨hdoc, hrest⟩ := List.forall_mem_cons.mp hdocs
    rw [countChanged_cons_self hdoc, ih hrest]

/-! ### Going through the records -/

/-- The ways in which an update goes through a list of records: what it makes of them, and how it
ends. -/
inductive Sweeps (filter update : Object) (multi : Bool) :
    List Object → List Object → Except StoreError Tally → Prop
  | done : Sweeps filter update multi [] [] (.ok ⟨0, 0⟩)
  | passed {doc : Object} {rest rest' : List Object} {outcome : Except StoreError Tally}
      (hmeets : doc.meets filter = .ok false) (h : Sweeps filter update multi rest rest' outcome) :
      Sweeps filter update multi (doc :: rest) (doc :: rest') outcome
  | changed {doc doc' : Object} {rest rest' : List Object} {outcome : Except StoreError Tally}
      (hmulti : multi = true) (hmeets : doc.meets filter = .ok true)
      (hupdated : doc.updated filter update = .ok doc')
      (h : Sweeps filter update multi rest rest' outcome) :
      Sweeps filter update multi (doc :: rest) (doc' :: rest')
        (outcome.map (Tally.ofRecord doc doc').plus)
  | first {doc doc' : Object} {rest : List Object} (hmulti : multi = false)
      (hmeets : doc.meets filter = .ok true) (hupdated : doc.updated filter update = .ok doc') :
      Sweeps filter update multi (doc :: rest) (doc' :: rest) (.ok (.ofRecord doc doc'))
  | unanswered {doc : Object} {rest : List Object} {cause : StoreError}
      (hmeets : doc.meets filter = .error cause) :
      Sweeps filter update multi (doc :: rest) (doc :: rest) (.error cause)
  | refused {doc : Object} {rest : List Object} {cause : StoreError}
      (hmeets : doc.meets filter = .ok true) (hupdated : doc.updated filter update = .error cause) :
      Sweeps filter update multi (doc :: rest) (doc :: rest) (.error cause)

/-- A record counts as changed exactly if it has become different. -/
theorem Tally.ofRecord_of_result {doc filter update : Object} (hdoc : doc.WellFormed)
    {changed : Bool} (h : (doc.apply filter update false).result doc = .ok changed) :
    Tally.ofRecord doc (if changed then (doc.apply filter update false).doc else doc) =
      ⟨1, if changed then 1 else 0⟩ := by
  unfold Applied.result at h
  split at h
  · cases h
  · obtain rfl := Except.ok.inj h
    cases hsame : (doc.apply filter update false).doc.equal doc with
    | true =>
      have hself : doc.equal doc = true := Json.WellFormed.equal_self (j := .object doc) hdoc
      simp [ofRecord, hself]
    | false => simp [ofRecord, hsame]

/-- **An update goes through a list of records in one of these ways.** -/
theorem sweeps_changeMeeting (filter update : Object) (multi : Bool) {docs : List Object}
    (hdocs : ∀ doc ∈ docs, doc.WellFormed) (tally : Tally) :
    ∃ docs' outcome, Sweeps filter update multi docs docs' outcome ∧
      changeMeeting filter update multi docs tally = (outcome.map tally.plus, docs') := by
  induction docs generalizing tally with
  | nil => exact ⟨[], _, .done, rfl⟩
  | cons doc rest ih =>
    obtain ⟨hdoc, hrest⟩ := List.forall_mem_cons.mp hdocs
    rw [changeMeeting]
    cases hmeets : doc.meets filter with
    | error cause => exact ⟨_, _, .unanswered hmeets, rfl⟩
    | ok holds =>
      cases holds with
      | false =>
        obtain ⟨rest', outcome, hsweeps, hchange⟩ := ih hrest tally
        exact ⟨_, _, .passed hmeets hsweeps, by simp [hchange]⟩
      | true =>
        cases hresult : (doc.apply filter update false).result doc with
        | error cause =>
          have hupdated : doc.updated filter update = .error cause := by
            simp [Object.updated, hresult, Except.map]
          exact ⟨_, _, .refused hmeets hupdated, by simp [hresult, Except.map]⟩
        | ok changed =>
          have hupdated : doc.updated filter update =
              .ok (if changed then (doc.apply filter update false).doc else doc) := by
            simp [Object.updated, hresult, Except.map]
          have hcount := Tally.ofRecord_of_result hdoc hresult
          have htally : tally.plus ⟨1, if changed then 1 else 0⟩ =
              ⟨tally.matched + 1, tally.modified + if changed then 1 else 0⟩ := rfl
          cases multi with
          | false =>
            refine ⟨_, _, .first rfl hmeets hupdated, ?_⟩
            simp [hresult, hcount, Except.map, htally]
          | true =>
            obtain ⟨rest', outcome, hsweeps, hchange⟩ :=
              ih hrest (tally.plus ⟨1, if changed then 1 else 0⟩)
            refine ⟨_, _, .changed rfl hmeets hupdated hsweeps, ?_⟩
            rw [htally] at hchange
            simp only [hresult, hchange, hcount]
            cases outcome with
            | error cause => rfl
            | ok more => simp [Except.map, ← htally, Tally.plus_assoc]

namespace Sweeps

variable {filter update : Object} {multi : Bool} {docs docs' : List Object}
  {outcome : Except StoreError Tally}

/-! ### What becomes of the records -/

/-- **A record can have changed only if it meets the filter, and is the first one that does unless
all of them are to be changed.** -/
theorem unchanged (h : Sweeps filter update multi docs docs' outcome) {i : Nat} {doc : Object}
    (hdoc : docs[i]? = some doc)
    (hnot : doc.meets filter = .ok true → multi = false ∧ ¬ FirstMeeting filter docs i) :
    docs'[i]? = some doc := by
  induction h generalizing i with
  | done => cases hdoc
  | passed hmeets _ ih =>
    cases i with
    | zero => exact hdoc
    | succ i =>
      refine ih hdoc fun hyes => ⟨(hnot hyes).1, fun hfirst => ?_⟩
      exact (hnot hyes).2 (hfirst.cons hmeets)
  | changed hmulti hmeets _ _ ih =>
    have hno : ¬ doc.meets filter = .ok true := fun hyes =>
      Bool.false_ne_true ((hnot hyes).1.symm.trans hmulti)
    cases i with
    | zero =>
      obtain rfl := Option.some.inj hdoc
      exact absurd hmeets hno
    | succ i => exact ih hdoc fun hyes => absurd hyes hno
  | first _ hmeets _ =>
    cases i with
    | zero =>
      obtain rfl := Option.some.inj hdoc
      exact absurd ⟨⟨_, rfl, hmeets⟩, by simp⟩ (hnot hmeets).2
    | succ i => exact hdoc
  | unanswered _ => exact hdoc
  | refused _ _ => exact hdoc

/-- **An update that ends well has changed what it was to change.** -/
theorem completed {tally : Tally} (h : Sweeps filter update multi docs docs' (.ok tally)) {i : Nat}
    {doc : Object} (hdoc : docs[i]? = some doc) (hmeets : doc.meets filter = .ok true)
    (hturn : multi = true ∨ FirstMeeting filter docs i) :
    ∃ doc', doc.updated filter update = .ok doc' ∧ docs'[i]? = some doc' := by
  generalize houtcome : Except.ok tally = outcome at h
  induction h generalizing i tally with
  | done => cases hdoc
  | @passed first rest rest' outcome hpassed _ ih =>
    cases i with
    | zero =>
      obtain rfl := Option.some.inj hdoc
      rw [hpassed] at hmeets
      cases hmeets
    | succ i =>
      refine ih hdoc (hturn.imp_right fun hfirst => ?_) houtcome
      obtain ⟨hhere, hfront⟩ := hfirst
      exact ⟨hhere, fun j hj => hfront (j + 1) (by omega)⟩
  | @changed first first' rest rest' outcome hmulti _ hupdated _ ih =>
    cases i with
    | zero =>
      obtain rfl := Option.some.inj hdoc
      exact ⟨first', hupdated, rfl⟩
    | succ i =>
      cases outcome with
      | error cause => cases houtcome
      | ok more => exact ih hdoc (.inl hmulti) rfl
  | @first first first' rest hmulti hfound hupdated =>
    cases i with
    | zero =>
      obtain rfl := Option.some.inj hdoc
      exact ⟨first', hupdated, rfl⟩
    | succ i =>
      obtain ⟨other, hother, hno⟩ :=
        (hturn.resolve_left (by simp [hmulti])).2 0 (Nat.succ_pos i)
      obtain rfl := Option.some.inj hother
      rw [hfound] at hno
      cases hno
  | unanswered _ => cases houtcome
  | refused _ _ => cases houtcome

/-- **An update that fails does so at one record**, which has no answer or cannot be changed. This
one and those behind it are as they were. -/
theorem stopped {cause : StoreError} (h : Sweeps filter update multi docs docs' (.error cause)) :
    ∃ i doc, docs[i]? = some doc ∧
      (doc.meets filter = .error cause ∨
        doc.meets filter = .ok true ∧ doc.updated filter update = .error cause) ∧
      docs'.drop i = docs.drop i := by
  generalize houtcome : Except.error cause = outcome at h
  have hhere : ∀ {doc : Object} {rest : List Object} {P : Object → Prop}, P doc →
      ∃ i found, (doc :: rest)[i]? = some found ∧ P found ∧
        (doc :: rest).drop i = (doc :: rest).drop i := fun hdoc => ⟨0, _, rfl, hdoc, rfl⟩
  induction h with
  | done => cases houtcome
  | passed _ _ ih =>
    obtain ⟨i, doc, hdoc, hwhy, hrest⟩ := ih houtcome
    exact ⟨i + 1, doc, hdoc, hwhy, hrest⟩
  | @changed _ _ _ _ outcome _ _ _ _ ih =>
    cases outcome with
    | ok more => cases houtcome
    | error cause' =>
      obtain ⟨i, doc, hdoc, hwhy, hrest⟩ := ih (by simpa [Except.map] using houtcome)
      exact ⟨i + 1, doc, hdoc, hwhy, hrest⟩
  | first _ _ _ => cases houtcome
  | unanswered hmeets =>
    obtain rfl := Except.error.inj houtcome
    exact hhere (.inl hmeets)
  | refused hmeets hupdated =>
    obtain rfl := Except.error.inj houtcome
    exact hhere (.inr ⟨hmeets, hupdated⟩)

/-! ### What is counted -/

/-- **An update that ends well has counted the records that meet the filter**, up to the first
unless all of them were to be changed, **and those that have become different.** -/
theorem tally {tally : Tally} (hdocs : ∀ doc ∈ docs, doc.WellFormed)
    (h : Sweeps filter update multi docs docs' (.ok tally)) :
    tally.matched =
        (if multi then countMeeting filter docs else min 1 (countMeeting filter docs)) ∧
      tally.modified = countChanged docs docs' := by
  generalize houtcome : Except.ok tally = outcome at h
  induction h generalizing tally with
  | done =>
    obtain rfl := Except.ok.inj houtcome
    simp [countMeeting, countChanged]
  | @passed doc rest rest' outcome hmeets _ ih =>
    obtain ⟨hdoc, hrest⟩ := List.forall_mem_cons.mp hdocs
    have hmatched : countMeeting filter (doc :: rest) = countMeeting filter rest := by
      simp [countMeeting, hmeets, Except.toOption]
    rw [hmatched, countChanged_cons_self hdoc]
    exact ih hrest houtcome
  | @changed doc doc' rest rest' outcome hmulti hmeets _ _ ih =>
    cases outcome with
    | error cause => cases houtcome
    | ok more =>
      obtain rfl := Except.ok.inj houtcome
      obtain ⟨hmatched, hmodified⟩ := ih (List.forall_mem_cons.mp hdocs).2 rfl
      simp only [hmulti, if_true] at hmatched ⊢
      simp only [Tally.plus, Tally.ofRecord, hmatched, hmodified, countMeeting, countChanged,
        List.countP_cons, List.zip_cons_cons, hmeets, Except.toOption]
      constructor
      · exact Nat.add_comm _ _
      · cases doc'.equal doc <;> simp [Nat.add_comm]
  | @first doc doc' rest hmulti hmeets _ =>
    obtain rfl := Except.ok.inj houtcome
    have hunchanged := countChanged_self (List.forall_mem_cons.mp hdocs).2
    simp only [hmulti, Tally.ofRecord, countMeeting, countChanged, List.countP_cons,
      List.zip_cons_cons, hmeets, Except.toOption] at hunchanged ⊢
    constructor
    · simp
    · cases doc'.equal doc <;> simp [hunchanged]
  | unanswered _ => cases houtcome
  | refused _ _ => cases houtcome

end Sweeps

/-! ### Updating a collection -/

namespace Store

/-- An update that is not asked to insert anything goes through the records of its collection. -/
theorem update_eq_changeMeeting (s : Store) (collection : String) (filter update : Object)
    (multi : Bool) :
    s.update collection filter update ⟨false, multi⟩ =
      ((changeMeeting filter update multi (s.documents collection) ⟨0, 0⟩).1.map
          fun tally => ⟨tally.matched, tally.modified, none⟩,
        s.setDocuments collection
          (changeMeeting filter update multi (s.documents collection) ⟨0, 0⟩).2) := by
  rcases hchange : changeMeeting filter update multi (s.documents collection) ⟨0, 0⟩ with
    ⟨_ | tally, docs⟩ <;> simp [Store.update, hchange, Except.map]

/-- What an update that is not asked to insert anything makes of a store, and how it ends. -/
structure UpdatesWhole (filter update : Object) (multi : Bool) (collection : String) (s t : Store)
    (outcome : Except StoreError UpdateResult) : Prop where
  elsewhere : ∀ name, name ≠ collection → t.documents name = s.documents name
  /-- The records keep their number and places. Each one is as it was, or it meets the filter and is
  what the update makes of it when it succeeds. -/
  whole : List.Forall₂ (ChangesTo filter update) (s.documents collection) (t.documents collection)
  /-- A record is as it was unless it meets the filter, and is the first one that does if only one is
  to be changed. -/
  unchanged : ∀ i doc, (s.documents collection)[i]? = some doc →
    (doc.meets filter = .ok true →
      multi = false ∧ ¬ FirstMeeting filter (s.documents collection) i) →
    (t.documents collection)[i]? = some doc
  /-- An update that ends well counts the records that meet the filter, at most one if only one is to
  be changed, and those that have become different. -/
  counted : ∀ result, outcome = .ok result → result.upserted = none ∧
    result.matched = (if multi then countMeeting filter (s.documents collection)
      else min 1 (countMeeting filter (s.documents collection))) ∧
    result.modified = countChanged (s.documents collection) (t.documents collection)
  /-- It has changed each record that it was to change. -/
  completed : ∀ result, outcome = .ok result → ∀ i doc, (s.documents collection)[i]? = some doc →
    doc.meets filter = .ok true →
    (multi = true ∨ FirstMeeting filter (s.documents collection) i) →
    ∃ doc', doc.updated filter update = .ok doc' ∧ (t.documents collection)[i]? = some doc'
  /-- An update that fails does so at one record, and touches none from there on. -/
  stopped : ∀ cause, outcome = .error cause →
    ∃ i doc, (s.documents collection)[i]? = some doc ∧
      (doc.meets filter = .error cause ∨
        doc.meets filter = .ok true ∧ doc.updated filter update = .error cause) ∧
      (t.documents collection).drop i = (s.documents collection).drop i

/-- **An update that is not asked to insert anything touches what meets its filter, and each record
as a whole**, however it ends. -/
theorem update_whole_records {s t : Store} {collection : String} {filter update : Object}
    {multi : Bool} {outcome : Except StoreError UpdateResult}
    (hdocs : ∀ doc ∈ s.documents collection, doc.WellFormed)
    (h : s.update collection filter update ⟨false, multi⟩ = (outcome, t)) :
    UpdatesWhole filter update multi collection s t outcome := by
  have hchanges := changesTo_changeMeeting filter update multi (s.documents collection) ⟨0, 0⟩
  obtain ⟨docs', swept, hsweeps, hchange⟩ :=
    sweeps_changeMeeting filter update multi hdocs ⟨0, 0⟩
  rw [hchange] at hchanges
  rw [update_eq_changeMeeting, hchange] at h
  obtain ⟨rfl, rfl⟩ := Prod.mk.inj h
  have hdocuments := documents_setDocuments_self s collection docs'
  refine ⟨fun name hname => documents_setDocuments_of_ne s docs' hname.symm, ?_, ?_, ?_, ?_, ?_⟩ <;>
    rw [hdocuments]
  · exact hchanges
  · exact fun i doc hdoc hnot => hsweeps.unchanged hdoc hnot
  · intro result hresult
    cases swept with
    | error cause => cases hresult
    | ok tally =>
      obtain rfl := Except.ok.inj hresult
      obtain ⟨hmatched, hmodified⟩ := hsweeps.tally hdocs
      exact ⟨rfl, by simp [hmatched], by simp [hmodified]⟩
  · intro result hresult i doc hdoc hmeets hturn
    cases swept with
    | error cause => cases hresult
    | ok tally => exact hsweeps.completed hdoc hmeets hturn
  · intro cause hcause
    cases swept with
    | ok tally => cases hcause
    | error cause' =>
      obtain rfl := Except.error.inj hcause
      exact hsweeps.stopped

/-- Four records, of which three have something under `n`. -/
def numberedRows : Store :=
  (Store.insert "rows" [[("_id", .ofInt64 1), ("n", .ofInt64 1)], [("_id", .ofInt64 2)],
    [("_id", .ofInt64 3), ("n", .ofInt64 5)], [("_id", .ofInt64 4), ("n", .string "many")]]
    .empty).2

/-- Numbers are raised to three where they are lower, in one of two records that meet the filter.
Counting up ends at the record that has a text, and the one in front of it stays counted up. -/
theorem update_whole_records_numberedRows :
    (∀ doc ∈ numberedRows.documents "rows", doc.WellFormed) ∧
    (∃ t, numberedRows.update "rows" [("n", .object [("$gte", .ofInt64 0)])]
        [("$max", .object [("n", .ofInt64 3)])] ⟨false, true⟩ = (.ok ⟨2, 1, none⟩, t) ∧
      UpdatesWhole [("n", .object [("$gte", .ofInt64 0)])] [("$max", .object [("n", .ofInt64 3)])]
        true "rows" numberedRows t (.ok ⟨2, 1, none⟩)) ∧
    ∃ t, numberedRows.update "rows" [("n", .object [("$exists", .bool true)])]
        [("$inc", .object [("n", .ofInt64 1)])] ⟨false, true⟩ = (.error (.numeric "$inc"), t) ∧
      UpdatesWhole [("n", .object [("$exists", .bool true)])]
        [("$inc", .object [("n", .ofInt64 1)])] true "rows" numberedRows t
        (.error (.numeric "$inc")) := by
  have hnumber : ∀ n, (Json.ofInt64 n).WellFormed := fun _ => trivial
  have htext : (Json.string "many").WellFormed := trivial
  have hdocuments : numberedRows.documents "rows" =
      [[("_id", .ofInt64 1), ("n", .ofInt64 1)], [("_id", .ofInt64 2)],
        [("_id", .ofInt64 3), ("n", .ofInt64 5)], [("_id", .ofInt64 4), ("n", .string "many")]] := rfl
  have hdocs : ∀ doc ∈ numberedRows.documents "rows", doc.WellFormed := by
    simp [hdocuments, Object.WellFormed, Json.wellFormed_object, hnumber, htext, or_imp, forall_and]
  exact ⟨hdocs, ⟨_, rfl, update_whole_records hdocs rfl⟩, ⟨_, rfl, update_whole_records hdocs rfl⟩⟩

end Store

end DocumentMapper
