import DocumentMapper.Proofs.Loading
import DocumentMapper.Proofs.SaveStages

/-!
# Which record a save changes

A loaded document comes from one record of its collection, and assignments do not change that. But
its save does not look for that record: it changes the first record that answers to the key that the
document has now, in the collection of its type, and does not ask whether there was one. So the
changes reach the record that the document was loaded from exactly when that record is the first to
answer to the key (`FirstMeeting`), apart from the degenerate case in which the patch would
change nothing on either side.

## Main results

* `Document.save_hits_own_iff`: when a save changes the record that the document was loaded from,
  and only that one;
* `firstMeeting_of_text_keys`: among records whose ids are texts, a text is answered by the record
  that has it as its id.
-/

namespace DocumentMapper

open Text

/-- No two records have the same id. -/
def DistinctIds (records : List Object) : Prop :=
  (records.map fun record => record.get? idKey).Nodup

/-- A document has the id of the record at a position. -/
def Document.IsLoadedFrom (d : Document) (records : List Object) (i : Nat) : Prop :=
  ∃ raw record : Object, d.raw = some raw ∧ records[i]? = some record ∧
    raw.get? idKey = record.get? idKey

/-- The documents to which assignments lead, to the primary key too. -/
inductive Document.Assigned : Document → Document → Prop where
  | refl (d : Document) : Assigned d d
  | set {d e f : Document} {name : String} {v : Value} :
      Assigned d e → e.set name v = .ok f → Assigned d f
  | setKey {d e f : Document} {v : Value} : Assigned d e → e.setKey v = .ok f → Assigned d f

/-- The record at a position of a collection has received an update, and nothing else has changed
from one store to the other. -/
def ReceivedAlone (s t : Store) (collection : String) (i : Nat) (filter update : Object) : Prop :=
  (∃ record changed, (s.documents collection)[i]? = some record ∧
    record.updated filter update = .ok changed ∧
    t.documents collection = (s.documents collection).set i changed) ∧
  ∀ name, name ≠ collection → t.documents name = s.documents name

/-- An update of the collection `target` hits the record at a position of the collection `own`: the
record is the first one to meet the filter, or else the update changes neither this record nor the
one that meets the filter. -/
def UpdateHits (s : Store) (own target : String) (i : Nat) (filter update : Object) : Prop :=
  (target = own ∧ FirstMeeting filter (s.documents own) i) ∨
    ((∃ record, (s.documents own)[i]? = some record ∧ record.updated filter update = .ok record) ∧
      ∀ j other, FirstMeeting filter (s.documents target) j →
        (s.documents target)[j]? = some other → other.updated filter update = .ok other)

namespace Document

/-! ### Assignments -/

/-- An assignment of an attribute keeps the type and the stored form. -/
theorem set_eq_ok {d d' : Document} {name : String} {v : Value} (h : d.set name v = .ok d') :
    d'.type = d.type ∧ d'.raw = d.raw := by
  obtain ⟨key, -, h⟩ := bind_eq_ok.mp h
  split at h
  · cases h
    exact ⟨rfl, rfl⟩
  · cases h
    exact ⟨rfl, rfl⟩

/-- So does an assignment of the primary key. -/
theorem setKey_eq_ok {d d' : Document} {v : Value} (h : d.setKey v = .ok d') :
    d'.type = d.type ∧ d'.raw = d.raw := by
  unfold setKey at h
  split at h
  · cases h
    exact ⟨rfl, rfl⟩
  · cases h

/-- **No assignment changes what a document was loaded from.** -/
theorem Assigned.same {d d' : Document} (h : Assigned d d') :
    d'.type = d.type ∧ d'.raw = d.raw := by
  induction h with
  | refl => exact ⟨rfl, rfl⟩
  | set hassigned hset ih =>
    obtain ⟨htype, hraw⟩ := set_eq_ok hset
    exact ⟨htype.trans ih.1, hraw.trans ih.2⟩
  | setKey hassigned hset ih =>
    obtain ⟨htype, hraw⟩ := setKey_eq_ok hset
    exact ⟨htype.trans ih.1, hraw.trans ih.2⟩

end Document

/-! ### The record that is hit -/

/-- Replacing two records at different positions by the same list change is no change at all. -/
theorem set_eq_set_of_ne {records : List Object} {i j : Nat} {a a' b b' : Object} (hij : j ≠ i)
    (ha : records[i]? = some a) (hb : records[j]? = some b)
    (h : records.set j b' = records.set i a') : a' = a ∧ b' = b := by
  obtain ⟨hi, -⟩ := List.getElem?_eq_some_iff.mp ha
  obtain ⟨hj, -⟩ := List.getElem?_eq_some_iff.mp hb
  have hati := congrArg (fun l => l[i]?) h
  have hatj := congrArg (fun l => l[j]?) h
  simp only [List.getElem?_set_self hi, List.getElem?_set_ne hij, ha, Option.some.injEq] at hati
  simp only [List.getElem?_set_self hj, List.getElem?_set_ne hij.symm, hb,
    Option.some.injEq] at hatj
  exact ⟨hati.symm, hatj⟩

/-- Replacing a record by itself is no change. -/
theorem set_same {records : List Object} {i : Nat} {a : Object} (ha : records[i]? = some a) :
    records.set i a = records := by
  obtain ⟨hi, rfl⟩ := List.getElem?_eq_some_iff.mp ha
  exact List.set_getElem_self hi

/-- **An update changes the record at a position and only that one exactly when it hits it.** -/
theorem receivedAlone_iff {s t : Store} {own target : String} {i : Nat} {filter update : Object}
    {result : UpdateResult} (hi : i < (s.documents own).length)
    (h : s.update target filter update ⟨false, false⟩ = (.ok result, t)) :
    ReceivedAlone s t own i filter update ↔ UpdateHits s own target i filter update := by
  obtain ⟨hothers, hcases⟩ := Store.documents_update_ok h
  have hrecord : (s.documents own)[i]? = some (s.documents own)[i] := List.getElem?_eq_getElem hi
  constructor
  · rintro ⟨⟨record, changed, hat, hu, hset⟩, hrest⟩
    obtain rfl := Option.some.inj (hrecord.symm.trans hat)
    by_cases htarget : target = own
    · subst htarget
      rcases hcases with ⟨hnone, hsame⟩ | ⟨j, other, other', hfirst, hother, hu', hset'⟩
      · -- Nothing met the filter, so the record has not changed.
        have hchanged : changed = (s.documents target)[i] := by
          have := congrArg (fun l => l[i]?) (hset.symm.trans hsame)
          simpa [List.getElem?_set_self hi, hrecord] using this
        exact .inr ⟨⟨_, hrecord, by rw [hu, hchanged]⟩,
          fun j other hfirst => absurd hnone hfirst.not_none⟩
      · by_cases hj : j = i
        · exact .inl ⟨rfl, hj ▸ hfirst⟩
        · obtain ⟨hchanged, hother'⟩ := set_eq_set_of_ne hj hrecord hother (hset'.symm.trans hset)
          refine .inr ⟨⟨_, hrecord, by rw [hu, hchanged]⟩, fun k o hk ho => ?_⟩
          obtain rfl := hfirst.unique hk
          obtain rfl := Option.some.inj (hother.symm.trans ho)
          rw [hu', hother']
    · -- The update went to another collection, so neither side has changed.
      have hchanged : changed = (s.documents own)[i] := by
        have := congrArg (fun l => l[i]?) (hset.symm.trans (hothers own (Ne.symm htarget)))
        simpa [List.getElem?_set_self hi, hrecord] using this
      refine .inr ⟨⟨_, hrecord, by rw [hu, hchanged]⟩, fun j other hfirst hother => ?_⟩
      rcases hcases with ⟨hnone, -⟩ | ⟨k, o, o', hk, ho, hu', hset'⟩
      · exact absurd hnone hfirst.not_none
      · obtain rfl := hfirst.unique hk
        obtain rfl := Option.some.inj (hother.symm.trans ho)
        obtain ⟨hj, -⟩ := List.getElem?_eq_some_iff.mp hother
        have := congrArg (fun l => l[j]?) (hset'.symm.trans (hrest target htarget))
        rw [List.getElem?_set_self hj, hother, Option.some.injEq] at this
        rw [hu', this]
  · rintro (⟨rfl, hfirst⟩ | ⟨⟨record, hat, hu⟩, hall⟩)
    · rcases hcases with ⟨hnone, -⟩ | ⟨j, other, other', hj, hother, hu', hset'⟩
      · exact absurd hnone hfirst.not_none
      · obtain rfl := hfirst.unique hj
        exact ⟨⟨other, other', hother, hu', hset'⟩, hothers⟩
    · have hsame : ∀ name, t.documents name = s.documents name := by
        intro name
        by_cases hname : name = target
        · subst hname
          rcases hcases with ⟨-, hsame⟩ | ⟨j, other, other', hj, hother, hu', hset'⟩
          · exact hsame
          · obtain rfl : other = other' := Except.ok.inj ((hall j other hj hother).symm.trans hu')
            rw [hset', set_same hother]
        · exact hothers name hname
      exact ⟨⟨record, record, hat, hu, by rw [hsame, set_same hat]⟩, fun name _ => hsame name⟩

namespace Document

/-- **A loaded document comes from exactly one record**, if no id occurs twice. -/
theorem existsUnique_isLoadedFrom {m : Mapper} {q : Selection} {s t : Session}
    {loaded : List Document} {d : Document}
    (hids : DistinctIds (s.store.documents q.collection))
    (hload : (q.all m).runFrom s = (.ok loaded, t)) (hd : d ∈ loaded) :
    ∃ i, d.IsLoadedFrom (s.store.documents q.collection) i ∧
      ∀ j, d.IsLoadedFrom (s.store.documents q.collection) j → j = i := by
  obtain ⟨-, hloaded⟩ := Selection.all_eq_ok hload
  obtain ⟨record, hrecord, raw, hraw, hid⟩ := hloaded d hd
  obtain ⟨i, hi⟩ := List.mem_iff_getElem?.mp hrecord
  refine ⟨i, ⟨raw, record, hraw, hi, hid⟩, ?_⟩
  rintro j ⟨raw', other, hraw', hj, hid'⟩
  obtain rfl : raw = raw' := Option.some.inj (hraw.symm.trans hraw')
  obtain ⟨hlt, -⟩ := List.getElem?_eq_some_iff.mp hi
  refine ((List.getElem?_inj (by simpa using hlt) hids).mp ?_).symm
  rw [List.getElem?_map, List.getElem?_map, hi, hj, Option.map_some, Option.map_some, ← hid, hid']

/-- **A save hits the record that the document was loaded from** exactly when that record is the
first one to answer to the key that the document has now, in the collection of the type of the
document; apart from this only an update that changes nothing on either side leaves the store as if
it had. -/
theorem save_hits_own_iff {m : Mapper} {q : Selection} {s t u : Session} {loaded : List Document}
    {d d' saved : Document} {patch : Patch} {v : Supply}
    (hids : DistinctIds (s.store.documents q.collection))
    (hload : (q.all m).runFrom s = (.ok loaded, t)) (hd : d ∈ loaded) (hassigned : Assigned d d')
    (hpatch : d'.incrementalPatch.runFrom t.supply = (.ok patch, v)) (hne : patch.isEmpty = false)
    (hsave : d'.save m.catalog t = (saved, .ok (), u)) :
    ∃ i target id w, d.IsLoadedFrom (t.store.documents q.collection) i ∧
      (∀ j, d.IsLoadedFrom (t.store.documents q.collection) j → j = i) ∧
      d.type.collection = some target ∧ d'.keyJson.runFrom v = (.ok id, w) ∧
      (ReceivedAlone t.store u.store q.collection i [(idKey, id)] patch.toUpdate ↔
        UpdateHits t.store q.collection target i [(idKey, id)] patch.toUpdate) := by
  obtain ⟨hdocuments, -⟩ := Selection.all_eq_ok hload
  obtain ⟨i, hown, hunique⟩ := existsUnique_isLoadedFrom hids hload hd
  have ⟨raw, record, hraw, hrecord, _⟩ := hown
  obtain ⟨htype, hraw'⟩ := hassigned.same
  have hnew : d'.isNew = false := by simp [isNew, hraw', hraw]
  obtain ⟨target, sent, x, hc, hsent, hstore, -⟩ := save_eq_ok_of_loaded hnew hsave
  obtain ⟨-, patch', v', hpatch', hcases⟩ := sendChanges_eq_ok hsent
  rw [hpatch] at hpatch'
  cases hpatch'
  rcases hcases with ⟨-, hempty, -⟩ | ⟨id, result, -, -, hid, hupdate⟩
  · rw [hne] at hempty
    cases hempty
  · refine ⟨i, target, id, x.supply, ?_, ?_, by rw [← htype, hc], hid, ?_⟩
    · rw [hdocuments]
      exact hown
    · rw [hdocuments]
      exact hunique
    · have hi : i < (t.store.documents q.collection).length := by
        rw [hdocuments]
        exact (List.getElem?_eq_some_iff.mp hrecord).1
      rw [hstore]
      exact receivedAlone_iff hi hupdate

end Document

/-! ### Which record answers to a key -/

/-- A key that is no map of operators is compared with the id of a record. -/
theorem meets_key (record : Object) {id : Json}
    (hid : isOperatorMap (id.asObject?.getD []) = false) :
    record.meets [(idKey, id)] = .ok (equalsAny (record.get? idKey).toList id) := by
  have hlookup : record.lookup idKey = (record.get? idKey).toList :=
    Object.lookup_of_segment rfl record
  have hcondition : conditionHolds id (record.lookup idKey) 0 =
      .ok (equalsAny (record.get? idKey).toList id) := by
    rw [hlookup]
    cases id with
    | object entries =>
      simp only [Json.asObject?, Option.getD_some] at hid
      simp only [conditionHolds, hid]
      rfl
    | null => rfl
    | bool b => rfl
    | whole n => rfl
    | float x => rfl
    | string s => rfl
    | array items => rfl
  change entriesHold [(idKey, id)] record 0 = _
  have hdollar : beginsWith "$" idKey = false := rfl
  simp only [entriesHold, hdollar]
  rw [if_neg (by simp), hcondition]
  cases equalsAny (record.get? idKey).toList id <;> rfl

/-- **Among records whose ids are texts a text is answered by the record that has it as its id.** -/
theorem firstMeeting_of_text_keys {records : List Object} (hids : DistinctIds records)
    (htexts : ∀ record ∈ records, ∃ text, record.get? idKey = some (.string text)) (key : String)
    (i : Nat) :
    FirstMeeting [(idKey, .string key)] records i ↔
      ∃ record, records[i]? = some record ∧ record.get? idKey = some (.string key) := by
  have hmeets : ∀ record ∈ records, ∀ answer, record.meets [(idKey, .string key)] = .ok answer ↔
      (answer = true ↔ record.get? idKey = some (.string key)) := by
    intro record hrecord answer
    obtain ⟨text, htext⟩ := htexts record hrecord
    rw [meets_key record rfl, htext]
    by_cases hkey : text = key <;> cases answer <;>
      simp [equalsAny, Json.sameValue, Json.equal, Json.isNumber, Json.asArray?, hkey]
  constructor
  · rintro ⟨⟨record, hrecord, htrue⟩, -⟩
    have := (hmeets record (List.mem_of_getElem? hrecord) true).mp htrue
    exact ⟨record, hrecord, this.mp rfl⟩
  · rintro ⟨record, hrecord, hid⟩
    obtain ⟨hlt, -⟩ := List.getElem?_eq_some_iff.mp hrecord
    refine ⟨⟨record, hrecord, ?_⟩, fun j hj => ?_⟩
    · exact (hmeets record (List.mem_of_getElem? hrecord) true).mpr (by simp [hid])
    · have hj' : j < records.length := by omega
      refine ⟨records[j], List.getElem?_eq_getElem hj', ?_⟩
      refine (hmeets _ (List.getElem_mem hj') false).mpr ?_
      simp only [Bool.false_eq_true, false_iff]
      -- Two records of the same id would stand at the same position.
      intro hsame
      have hpos : i = j := by
        refine (List.getElem?_inj (by simpa using hlt) hids).mp ?_
        rw [List.getElem?_map, List.getElem?_map, hrecord, List.getElem?_eq_getElem hj',
          Option.map_some, Option.map_some, hid, hsame]
      omega

/-! ### Two rows -/

/-- A mapper that knows the type of rows. -/
def rowMapper : Mapper := ⟨Catalog.empty.add rowType, .standard⟩

/-- The selection of all rows. -/
def allRows : Selection := ⟨rowType, .empty, [], [], 0, none, none⟩

/-- A row with an old title. -/
def oldRow (id : String) : Object :=
  storedRow id (.ofInt64 1) "old"

/-- A session with two rows. -/
def twoRows : Session :=
  rowSession [oldRow "a", oldRow "b"]

/-- The session in which one of the two rows has become another. -/
def twoRowsWith (i : Nat) (row : Object) : Session :=
  ⟨twoRows.store.setDocuments "rows" ((twoRows.store.documents "rows").set i row), .fresh⟩

/-- The first row with a new title. -/
def retitledFirst : Document :=
  (loadedRow (oldRow "a")).assign [("title", .string "new")]

/-- The first row with a new title and the key of the second one. -/
def rekeyedFirst : Document :=
  ((loadedRow (oldRow "a")).put "id" (.string "b")).assign [("title", .string "new")]

/-- The patch of the new title. -/
def newTitle : Patch :=
  ⟨[("title", .string "new")], []⟩

theorem distinctIds_twoRows : DistinctIds (twoRows.store.documents allRows.collection) := by
  have hids : (twoRows.store.documents allRows.collection).map (fun (r : Object) => r.get? idKey) =
      [some (.string "a"), some (.string "b")] := rfl
  rw [DistinctIds, hids]
  simp

theorem all_twoRows :
    (allRows.all rowMapper).runFrom twoRows =
      (.ok [loadedRow (oldRow "a"), loadedRow (oldRow "b")], twoRows) := rfl

theorem save_retitledFirst :
    retitledFirst.save rowMapper.catalog twoRows =
      (retitledFirst.persisted (storedRow "a" (.ofInt64 1) "new"), .ok (),
        twoRowsWith 0 (storedRow "a" (.ofInt64 1) "new")) := by
  have hpatch : retitledFirst.incrementalPatch.runFrom .fresh = (.ok newTitle, .fresh) := rfl
  have hid : retitledFirst.keyJson.runFrom .fresh = (.ok (.string "a"), .fresh) := rfl
  have hfirst : FirstMeeting [(idKey, .string "a")] (twoRows.store.documents "rows") 0 :=
    ⟨⟨oldRow "a", rfl, rfl⟩, fun j hj => by omega⟩
  have hraw : retitledFirst.toStorage.runFrom .fresh =
      (.ok (storedRow "a" (.ofInt64 1) "new"), .fresh) := rfl
  exact Document.save_of_first rowMapper.catalog rfl rfl rfl hpatch rfl hid hfirst rfl rfl hraw

/-- **A changed key leads a save to another record**: the new title of the first row goes to the
second one, whose key the first row has taken in memory. -/
theorem save_rekeyedFirst :
    rekeyedFirst.save rowMapper.catalog twoRows =
      (rekeyedFirst.persisted (storedRow "b" (.ofInt64 1) "new"), .ok (),
        twoRowsWith 1 (storedRow "b" (.ofInt64 1) "new")) := by
  have hpatch : rekeyedFirst.incrementalPatch.runFrom .fresh = (.ok newTitle, .fresh) := rfl
  have hid : rekeyedFirst.keyJson.runFrom .fresh = (.ok (.string "b"), .fresh) := rfl
  have hfirst : FirstMeeting [(idKey, .string "b")] (twoRows.store.documents "rows") 1 := by
    refine ⟨⟨oldRow "b", rfl, rfl⟩, fun j hj => ?_⟩
    obtain rfl : j = 0 := by omega
    exact ⟨oldRow "a", rfl, rfl⟩
  have hraw : rekeyedFirst.toStorage.runFrom .fresh =
      (.ok (storedRow "b" (.ofInt64 1) "new"), .fresh) := rfl
  exact Document.save_of_first rowMapper.catalog rfl rfl rfl hpatch rfl hid hfirst rfl rfl hraw

theorem save_hits_own_iff_retitledFirst :
    DistinctIds (twoRows.store.documents allRows.collection) ∧
      (loadedRow (oldRow "a")).Assigned retitledFirst ∧
      ∃ i target id w, (loadedRow (oldRow "a")).IsLoadedFrom (twoRows.store.documents "rows") i ∧
        (∀ j, (loadedRow (oldRow "a")).IsLoadedFrom (twoRows.store.documents "rows") j → j = i) ∧
        rowType.collection = some target ∧ retitledFirst.keyJson.runFrom .fresh = (.ok id, w) ∧
        (ReceivedAlone twoRows.store (twoRowsWith 0 (storedRow "a" (.ofInt64 1) "new")).store
            "rows" i [(idKey, id)] newTitle.toUpdate ↔
          UpdateHits twoRows.store "rows" target i [(idKey, id)] newTitle.toUpdate) := by
  have hassigned : (loadedRow (oldRow "a")).Assigned retitledFirst := by
    have hset : (loadedRow (oldRow "a")).set "title" (.string "new") = .ok retitledFirst := rfl
    exact .set (.refl _) hset
  have hpatch : retitledFirst.incrementalPatch.runFrom twoRows.supply = (.ok newTitle, .fresh) := rfl
  exact ⟨distinctIds_twoRows, hassigned, Document.save_hits_own_iff distinctIds_twoRows all_twoRows
    List.mem_cons_self hassigned hpatch rfl save_retitledFirst⟩

/-- The row that was loaded has not received the new title. -/
theorem rekeyedFirst_not_receivedAlone :
    (loadedRow (oldRow "a")).Assigned rekeyedFirst ∧
      (loadedRow (oldRow "a")).IsLoadedFrom (twoRows.store.documents "rows") 0 ∧
      (∃ saved, rekeyedFirst.save rowMapper.catalog twoRows =
        (saved, .ok (), twoRowsWith 1 (storedRow "b" (.ofInt64 1) "new"))) ∧
      ¬ ReceivedAlone twoRows.store (twoRowsWith 1 (storedRow "b" (.ofInt64 1) "new")).store
        "rows" 0 [(idKey, .string "b")] newTitle.toUpdate := by
  refine ⟨?_, ⟨oldRow "a", oldRow "a", rfl, rfl, rfl⟩, ⟨_, save_rekeyedFirst⟩, ?_⟩
  · have hkey : (loadedRow (oldRow "a")).setKey (.string "b") =
        .ok ((loadedRow (oldRow "a")).put "id" (.string "b")) := rfl
    have hset : ((loadedRow (oldRow "a")).put "id" (.string "b")).set "title" (.string "new") =
        .ok rekeyedFirst := rfl
    exact .set (.setKey (.refl _) hkey) hset
  · rintro ⟨⟨record, changed, -, -, hset⟩, -⟩
    have hsecond := congrArg (fun l => l[1]?) hset
    have hnew : ((twoRowsWith 1 (storedRow "b" (.ofInt64 1) "new")).store.documents "rows")[1]? =
      some (storedRow "b" (.ofInt64 1) "new") := rfl
    have hold : ((twoRows.store.documents "rows").set 0 changed)[1]? = some (oldRow "b") := rfl
    rw [hnew, hold] at hsecond
    simp [oldRow, storedRow] at hsecond

end DocumentMapper
