import DocumentMapper.Proofs.FirstSave
import DocumentMapper.Proofs.Rewriting
import DocumentMapper.Proofs.TrackedEdits
import DocumentMapper.Proofs.TwoWriters

/-!
# A document that is saved twice

A document is saved as new, changed by tracked edits that leave its primary key alone, and saved
again. The second save sends a patch of what changed and then takes over the stored form of the
whole document as its snapshot. Here is shown that the two agree: the record that the first save has
inserted has become the snapshot, up to the order of entries and to blank ones, and no other record
has changed.

This is a promise as far as the patch can be faithful (`Faithful`) and the record is the one that
answers to the key. References are not followed, so that a document in an attribute of references
has to keep its key: a post whose author was given another key has the new key in its snapshot and
the old one in its record.

## Main results

* `KeepsAttributes.rewrites_record`: the patch leads from one stored form to the other;
* `SavedTwice.mirrors`: the record of a document that was saved twice is its snapshot.
-/

namespace DocumentMapper

open Text Drawing

/-! ### The changes as a whole -/

namespace KeepsAttributes

variable {saved edited : Document} {opened : String → Option Value}

/-- A changed path of the document begins with the name of an attribute. -/
theorem ne_empty_path (h : KeepsAttributes saved edited opened) {q : List String}
    (hq : Nested .empty [] (.document edited) q) : q ≠ [""] := by
  rintro rfl
  generalize hpath : [""] = path at hq
  cases hq with
  | own _ hm =>
    subst hpath
    obtain ⟨name, hname, hprefix, -⟩ := h.marks _ hm
    exact hname.1 (List.cons_prefix_cons.mp hprefix).1
  | @inside _ _ _ name v q _ _ _ hn =>
    have hlength := congrArg List.length hpath
    have hname : dottedSegments name ≠ [] := dottedSegments_ne_nil name
    have hrest := hn.isSegment.1
    rw [List.length_append, List.length_singleton] at hlength
    have := List.length_pos_iff.mpr hname
    have := List.length_pos_iff.mpr hrest
    omega

/-- What is recorded about the document as a whole. -/
theorem recorded (h : KeepsAttributes saved edited opened) :
    Recorded edited.changedPaths.segments [] [] .empty edited.place := by
  refine ⟨fun m hm => absurd hm List.not_mem_nil, fun _ v q hv hn => ?_, fun q hq => .inr ?_⟩
  · obtain rfl : .document edited = v := Option.some.inj hv
    exact Document.changedPaths_covered hn (h.ne_empty_path hn)
  · exact ⟨_, rfl, Document.nested_of_changedPaths hq⟩

end KeepsAttributes

/-- No changed path leads to the document itself. -/
theorem Document.uncovered_root (doc : Document) : Uncovered doc.changedPaths.segments [] :=
  fun _ hk hprefix => DirtyPaths.ne_nil_of_mem hk (List.prefix_nil.mp hprefix)

/-- Tracked edits keep what a document without marks promises. -/
theorem Document.Edited.keepsAttributes {kept : Option String} {saved edited : Document}
    (h : Document.Edited kept saved edited)
    (htracks : Tracks .empty [] (some (.document saved)) (some (.document saved))) :
    ∃ opened, KeepsAttributes saved edited opened := by
  have hkeeps := h.keeps .empty [] _ htracks
  generalize hold : some (Value.document saved) = before at hkeeps
  generalize hnow : some (Value.document edited) = now at hkeeps
  cases hkeeps with
  | covered _ _ hcovered => exact absurd hcovered (DirtyPaths.not_covered_empty [])
  | absent _ => cases hold
  | leaf hleaf _ =>
    obtain rfl := Option.some.inj hold
    exact absurd hleaf id
  | list _ _ _ => cases hold
  | dict _ _ => cases hold
  | document _ htype hdefaults hmarks opened hopened hattributes hother =>
    cases hold
    cases hnow
    exact ⟨opened, htype, hdefaults, hmarks, hopened, hattributes, hother⟩

/-- The edits of the patch, for the document as a whole. -/
theorem Faithful.editsFor {edited : Document} {before : Place}
    (h : Faithful edited.changedPaths.segments [] before edited.place) {p : Patch}
    (hp : edited.incrementalPatch.Gives p) :
    EditsFor edited.changedPaths.segments [] edited.place p.edits := by
  obtain ⟨hsound, hcomplete⟩ := Document.gives_incrementalPatch hp
  have hsegments : ∀ q ∈ edited.changedPaths.segments,
      dottedSegments (dotted (edited.place.follow q).2) = (edited.place.follow q).2 := by
    intro q hq
    refine dottedSegments_dotted ?_ (h.isSegment_follow hq)
    cases q with
    | nil => exact absurd rfl (DirtyPaths.ne_nil_of_mem hq)
    | cons s rest => exact List.cons_ne_nil _ _
  refine ⟨fun e he => ?_, fun q hq => ?_⟩
  · obtain ⟨q, hq, hpath, hasks⟩ := hsound e he
    exact ⟨q, hq, by rw [hpath, hsegments q hq], hasks⟩
  · obtain ⟨edit, hedit⟩ := hcomplete q hq
    exact ⟨edit, by rwa [hsegments q hq] at hedit⟩

/-! ### The key -/

/-- A type with a collection has a key field, which is stored as the id. -/
theorem Document.exists_key {doc : Document} {collection : String} (ht : doc.type.Built)
    (hc : doc.type.collection = some collection) :
    ∃ key f, doc.type.primaryKey = some key ∧ doc.type.field? key = some f ∧
      doc.storedName key = idKey := by
  obtain ⟨key, f, hkey, hfield, -, hstored⟩ := ht.primaryKeyField? hc
  have hf : doc.type.field? key = some f := by
    rwa [DocumentType.primaryKeyField?, hkey, Option.bind_some] at hfield
  exact ⟨key, f, hkey, hf, by rw [storedName_of_field hf, hstored]⟩

/-- The key of a document is what lives at its place. -/
theorem Document.gives_keyJson {doc : Document} {key : String} {f : Field} {j : Json}
    (hkey : doc.type.primaryKey = some key) (hfield : doc.type.field? key = some f)
    (h : doc.keyJson.Gives j) : (Place.inDocument doc key).toJson.Gives j := by
  have hname : f.name = key := by simpa using List.find?_some hfield
  have hfrom : (doc.type.keyFrom (encodersOf doc.values)).Gives j := by
    obtain ⟨type, values, dirty, raw⟩ := doc
    exact h
  simp only [DocumentType.keyFrom, DocumentType.primaryKeyField?, hkey, Option.bind_some, hfield,
    hname, encoderOf_encodersOf] at hfrom
  simp only [Place.inDocument, DocumentType.describe?, hfield]
  cases hv : Entries.get? doc.values key with
  | none =>
    rw [hv] at hfrom
    exact hfrom
  | some v =>
    rw [hv] at hfrom
    exact hfrom

section

variable {saved edited : Document} {opened : String → Option Value} {key : String}

/-- No changed path leads to the key or below it, if the edits have left it alone. -/
theorem KeepsAttributes.not_changed_key (h : KeepsAttributes saved edited opened)
    (hleaves : Document.Leaves (some key) saved edited) (hdirty : saved.dirty = .empty)
    (hvalue : ∀ v, Entries.get? saved.values key = some v → v.unmarked = v)
    (hnow : edited.Representable) (rest : List String) :
    key :: rest ∉ edited.changedPaths.segments := by
  intro hmem
  generalize hpath : key :: rest = path at hmem
  have hn := Document.nested_of_changedPaths hmem
  cases hn with
  | own _ hm =>
    subst hpath
    have hold := hleaves.marks key rfl _ hm (List.cons_prefix_cons.mpr ⟨rfl, List.nil_prefix⟩)
    rw [hdirty] at hold
    cases hold
  | inside _ _ hv hn =>
    obtain ⟨rfl, rfl, hget⟩ := Recorded.of_entry hnow.values.1
      (fun k v hk hv => h.unmarked (fun hk' => hk hk'.2) hv) hv hn hpath.symm
    rw [hleaves.value _ rfl] at hget
    rw [← hvalue _ hget] at hn
    exact Value.not_nested_unmarked _ hn

/-- **The patch leaves the id alone**, if no changed path leads to the key. -/
theorem KeepsAttributes.leavesId (h : KeepsAttributes saved edited opened)
    (hapart : edited.StoredApart) (hnow : edited.Representable)
    (hkey : edited.HasAttribute key) (hid : edited.storedName key = idKey)
    (hnot : ∀ rest, key :: rest ∉ edited.changedPaths.segments) {p : Patch}
    (hedits : EditsFor edited.changedPaths.segments [] edited.place p.edits) : p.LeavesId := by
  intro path hpath hhead
  have hfst : dottedSegments path ∈ p.edits.map Prod.fst := by
    rw [Patch.map_fst_edits]
    exact List.mem_map_of_mem hpath
  obtain ⟨e, he, heq⟩ := List.mem_map.mp hfst
  obtain ⟨q, hq, hfollow, -⟩ := hedits.sound e he
  cases q with
  | nil => exact DirtyPaths.ne_nil_of_mem hq rfl
  | cons name rest =>
    rw [← heq, hfollow, Place.follow_cons, List.head?_cons, Option.some.injEq] at hhead
    have hbegin := h.begins (DirtyPaths.nothingAt_empty []) h.recorded hnow hq
    have hstored : edited.storedName name = edited.storedName key := by
      rw [hid]
      exact hhead
    obtain rfl := hapart.injective name key hbegin.2 hkey hstored
    exact hnot rest hq

/-- **The patch of what changed leads to the stored form** of the document, up to blank entries, in
a record that stores the document as it was. -/
theorem KeepsAttributes.rewrites_record (h : KeepsAttributes saved edited opened)
    (hold : saved.Representable) (hnow : edited.Representable)
    (hfaithful : Faithful edited.changedPaths.segments [] saved.place edited.place) {p : Patch}
    (hp : edited.incrementalPatch.Gives p) (hsendable : p.Sendable) {record record' : Object}
    (hrecord : record.WellFormed) (hstores : saved.StoredUpToMarks record) {id : Json}
    (hupdated : record.updated [(idKey, id)] p.toUpdate = .ok record') {full : Patch}
    (hfull : edited.fullPatch.Gives full) :
    (Json.object record').pruned.equal (Json.object full.sets).pruned = true := by
  have hapart : edited.StoredApart := hfaithful.apart [] edited edited.uncovered_root rfl
  have hstores' := Document.stores_of_fullPatch hfull h.lacksNoDefault hapart
  obtain ⟨-, hrun, -⟩ := Object.updated_eq_ok hsendable hrecord hupdated
  have hrewrites : ∀ name, IsAttributeName name → ∀ front g,
      Rewrites edited.changedPaths.segments front [name] edited.dirty ⟨g, opened name⟩
        ⟨g, Entries.get? edited.values name⟩ := fun name hname front g =>
    (h.attributes name hname).rewrites edited.antichain_changedPaths
      (fun _ hk => DirtyPaths.isSegment_of_mem hk) front g
  refine (Json.pruned_equal_iff _ _).mpr ?_
  exact rewrites_document edited.antichain_changedPaths h (DirtyPaths.nothingAt_empty []) hrewrites
    edited.uncovered_root h.recorded nofun hfaithful hold hnow (hfaithful.editsFor hp) hstores
    hstores' hrun

end

/-! ### The second save -/

/-- A save of a document that is not new, if it ends well, has sent nothing, or it has sent the
patch and has taken over the stored form. -/
theorem Document.save_eq_ok_of_sent {c : Catalog} {d saved : Document} {s t : Session}
    {collection : String} (hnew : d.isNew = false) (hc : d.type.collection = some collection)
    (h : d.save c s = (saved, .ok (), t)) :
    (saved = d ∧ t.store = s.store) ∨
      ∃ p id result full, d.incrementalPatch.Gives p ∧ p.isEmpty = false ∧ d.keyJson.Gives id ∧
        s.store.update collection [(idKey, id)] p.toUpdate ⟨false, false⟩ = (.ok result, t.store) ∧
        d.fullPatch.Gives full ∧ saved.raw = some full.sets := by
  obtain ⟨target, sent, v, htarget, hsent, hstore, hsaved⟩ := save_eq_ok_of_loaded hnew h
  obtain rfl := Option.some.inj (hc.symm.trans htarget)
  obtain ⟨-, p, w, hp, ⟨rfl, -, rfl⟩ | ⟨id, result, rfl, hempty, hid, hupdate⟩⟩ :=
    sendChanges_eq_ok hsent
  · rcases hsaved with ⟨-, rfl⟩ | ⟨_, hfalse, -⟩
    · exact .inl ⟨rfl, hstore⟩
    · cases hfalse
  · rcases hsaved with ⟨hfalse, -⟩ | ⟨raw, -, hraw, rfl⟩
    · cases hfalse
    · obtain ⟨full, hfull, hsets⟩ := Gives.of_bind (show d.toStorage.Gives raw from ⟨_, _, hraw⟩)
      refine .inr ⟨p, id, result, full, ⟨_, _, hp⟩, hempty, ⟨_, _, hid⟩, ?_, hfull, ?_⟩
      · rw [hstore]
        exact hupdate
      · rw [gives_pure.mp hsets]
        rfl

/-- An update whose filter the last record is the first to meet changes that record alone. -/
theorem Store.documents_update_last {s t : Store} {collection : String} {filter update : Object}
    {result : UpdateResult} {front : List Object} {record : Object}
    (hdocuments : s.documents collection = front ++ [record])
    (hfirst : FirstMeeting filter (s.documents collection) front.length)
    (h : s.update collection filter update ⟨false, false⟩ = (.ok result, t)) :
    ∃ record', record.meets filter = .ok true ∧ record.updated filter update = .ok record' ∧
      t.documents collection = front ++ [record'] ∧
      ∀ name, name ≠ collection → t.documents name = s.documents name := by
  obtain ⟨hother, hnone | ⟨i, found, record', hmeeting, hfound, hupdated, hdocuments'⟩⟩ :=
    Store.documents_update_ok h
  · exact absurd hnone.1 hfirst.not_none
  obtain rfl := hmeeting.unique hfirst
  obtain ⟨⟨first, hget, hmeets⟩, -⟩ := hmeeting
  rw [hdocuments] at hfound hget
  obtain rfl : record = found := by simpa using hfound
  obtain rfl : record = first := by simpa using hget
  refine ⟨record', hmeets, hupdated, ?_, hother⟩
  rw [hdocuments', hdocuments]
  simp

/-! ### Two saves -/

/-- The record is the snapshot that the document has of its stored form: they have the same id, and
the same entries up to their order and to blank ones. -/
def Document.Mirrors (d : Document) (record : Object) : Prop :=
  ∃ raw : Object, d.raw = some raw ∧ record.get? idKey = raw.get? idKey ∧
    (Json.object record).pruned.equal (Json.object raw).pruned = true

/-- A document was saved as new, changed by tracked edits that leave its primary key alone, and
saved again, both times with success. -/
structure SavedTwice (c : Catalog) (s : Session) (d saved : Document) (t : Session)
    (edited again : Document) (u : Session) : Prop where
  built : d.type.Built
  new : d.isNew = true
  first : d.save c s = (saved, .ok (), t)
  changes : Document.Edited saved.type.primaryKey saved edited
  second : edited.save c t = (again, .ok (), u)

/-- **The second save leaves the snapshot in the store**, in the record that the first save has
inserted, and changes no other record. -/
theorem SavedTwice.mirrors {c : Catalog} {s t u : Session} {d saved edited again : Document}
    (h : SavedTwice c s d saved t edited again u) {collection : String}
    (hc : d.type.collection = some collection) (hold : saved.Representable)
    (hnow : edited.Representable) (hapart : saved.StoredApart)
    (hfaithful : Faithful edited.changedPaths.segments [] saved.place edited.place)
    (hrecords : t.store.WellFormed)
    (hpatch : ∀ p, edited.incrementalPatch.Gives p → p.WellFormed)
    (hown : ∀ id, edited.keyJson.Gives id → FirstMeeting [(idKey, id)]
      (t.store.documents collection) (s.store.documents collection).length) :
    ∃ record, again.Mirrors record ∧
      u.store.documents collection = s.store.documents collection ++ [record] ∧
      ∀ name, name ≠ collection → u.store.documents name = s.store.documents name := by
  obtain ⟨full, form, id, hfirst, hdocuments, hother⟩ :=
    Document.save_eq_ok_of_new h.built h.new hc h.first
  have htype : edited.type = saved.type := h.changes.leaves.type
  have hsavedType := hfirst.saved_type
  have hfullType := hfirst.type
  obtain ⟨key, f, hkey, hfield, hid⟩ :=
    Document.exists_key (show full.type.Built from hfullType ▸ h.built) (hfullType ▸ hc)
  have hleaves : Document.Leaves (some key) saved edited := by
    have := h.changes.leaves
    rwa [hsavedType, hkey] at this
  obtain ⟨opened, hkeeps⟩ :=
    h.changes.keepsAttributes (hfirst.tracks hkey hfield hid hapart)
  have hraw : edited.raw = some (Entries.insert form.sets idKey id) := by
    rw [hleaves.raw, hfirst.saved]
    rfl
  rcases Document.save_eq_ok_of_sent (by simp [Document.isNew, hraw])
    (by rw [htype, hsavedType, hfullType, hc]) h.second with
    ⟨rfl, hstore⟩ | ⟨p, id', result, full', hp, hempty, hid', hupdate, hfull', hraw'⟩
  · -- Nothing was sent: the record is the one that the first save has inserted.
    refine ⟨Store.insertedForm form.sets id, ⟨_, hraw, ?_, ?_⟩, by rw [hstore, hdocuments],
      fun name hname => by rw [hstore, hother name hname]⟩
    · rw [Store.get?_idKey_insertedForm hfirst.given, Entries.get?_insert_self]
    · refine (Json.pruned_equal_iff _ _).mpr ?_
      exact congrArg Content.pruned (Store.content_insertedForm hfirst.given)
  · -- The patch was sent to the own record, because that is the first to answer.
    obtain ⟨record', hmeets, hupdated, hdocuments', hother'⟩ :=
      Store.documents_update_last hdocuments (hown id' hid') hupdate
    have hwf : Object.WellFormed (Store.insertedForm form.sets id) :=
      hrecords collection _ (by rw [hdocuments]; simp)
    -- The key lives at the place where it lived, and the record has it as its id.
    have hplace : Place.inDocument saved key = Place.inDocument edited key := by
      simp only [Place.inDocument, htype, hleaves.value key rfl]
    have hj : (Place.inDocument edited key).toJson.Gives id' :=
      Document.gives_keyJson (htype ▸ hsavedType ▸ hkey) (htype ▸ hsavedType ▸ hfield) hid'
    have hdetermined : (Place.inDocument edited key).toJson.Determined :=
      hfaithful.determined [key] (edited.uncovered_root.reached key)
    obtain ⟨hjKeyed, hget⟩ :=
      hfirst.storesKey hkey hfield hid hapart (hplace ▸ hdetermined) (hplace ▸ hj) hmeets
    have hstores := hfirst.stores hkey hfield hid hapart hjKeyed hget
    have hapart' : edited.StoredApart := hfaithful.apart [] edited edited.uncovered_root rfl
    have hattribute : edited.HasAttribute key := .inr (by rw [htype, hsavedType, hfield]; rfl)
    have hstoredName : edited.storedName key = idKey := by
      rw [storedName_congr htype, hfirst.storedName, hid]
    have hnot := hkeeps.not_changed_key hleaves hfirst.saved_dirty hfirst.unmarked_of_get? hnow
    have hsendable : p.Sendable := ⟨hempty, hpatch p hp,
      hkeeps.leavesId hapart' hnow hattribute hstoredName hnot (hfaithful.editsFor hp)⟩
    have hrewritten := hkeeps.rewrites_record hold hnow hfaithful hp hsendable hwf hstores hupdated
      hfull'
    obtain ⟨j, hj', hget'⟩ := (Document.stores_of_fullPatch hfull' hkeeps.lacksNoDefault
      hapart').attributes key hattribute
    obtain ⟨-, -, -, hsameId⟩ := Object.updated_eq_ok hsendable hwf hupdated
    refine ⟨record', ⟨full'.sets, hraw', ?_, hrewritten⟩, hdocuments',
      fun name hname => by rw [hother' name hname, hother name hname]⟩
    rw [← hstoredName, hget', hdetermined j id' hj' hj, hstoredName, hsameId, hget]

/-! ### A row -/

/-- A row that was never saved. -/
def newRow : Document :=
  ⟨rowType, [("id", .string "a"), ("n", .int 1), ("title", .string "old")], .empty, none⟩

/-- The row after its first save. -/
def savedRow : Document :=
  newRow.persisted (storedRow "a" (.ofInt64 1) "old")

/-- The saved row with a new title. -/
def retitledSavedRow : Document :=
  savedRow.assign [("title", .string "new")]

/-- A session in which the row was saved with a title. -/
def savedRowSession (title : String) : Session :=
  rowSession [storedRow "a" (.ofInt64 1) title]

/-- The row after its second save. -/
def resavedRow : Document :=
  retitledSavedRow.persisted (storedRow "a" (.ofInt64 1) "new")

theorem save_newRow :
    newRow.save .empty .empty = (savedRow, .ok (), savedRowSession "old") := rfl

theorem save_retitledSavedRow :
    retitledSavedRow.save .empty (savedRowSession "old") =
      (resavedRow, .ok (), savedRowSession "new") := by
  have hpatch : retitledSavedRow.incrementalPatch.runFrom .fresh = (.ok newTitle, .fresh) := rfl
  have hid : retitledSavedRow.keyJson.runFrom .fresh = (.ok (.string "a"), .fresh) := rfl
  have hraw : retitledSavedRow.toStorage.runFrom .fresh =
      (.ok (storedRow "a" (.ofInt64 1) "new"), .fresh) := rfl
  rw [Document.save_of_only (s := savedRowSession "old") .empty rfl rfl rfl hpatch rfl hid rfl rfl rfl
    hraw]
  rfl

theorem savedTwice_retitledSavedRow :
    SavedTwice .empty .empty newRow savedRow (savedRowSession "old") retitledSavedRow resavedRow
      (savedRowSession "new") := by
  have hset : savedRow.set "title" (.string "new") = .ok retitledSavedRow := rfl
  exact ⟨rowType_built, rfl, save_newRow, .set (.refl _ _) ⟨by decide, by decide⟩ (by decide) hset,
    save_retitledSavedRow⟩

/-- A row with its three attributes stores them apart. -/
theorem storedApart_row {doc : Document} (htype : doc.type = rowType)
    (hnames : doc.values.map Prod.fst = ["id", "n", "title"]) : doc.StoredApart := by
  refine doc.storedApart_of_declared (htype ▸ rowType_built) (by rw [hnames]; decide)
    (fun name hname => ?_) fun hclass => ?_
  · rw [hnames] at hname
    rw [htype]
    revert name
    decide
  · rw [htype] at hclass
    exact absurd hclass (by decide)

/-- The patch of the new title is faithful. -/
theorem faithful_retitledSavedRow :
    Faithful retitledSavedRow.changedPaths.segments [] savedRow.place retitledSavedRow.place := by
  have hvalues : retitledSavedRow.values =
      [("id", .string "a"), ("n", .int 1), ("title", .string "new")] := rfl
  refine .of_flat (fun name v hv => ?_) ?_ (fun name => ?_) (fun k hk => ?_) (storedApart_row rfl rfl)
  · have := Entries.mem_of_get? hv
    rw [hvalues] at this
    revert this
    simp only [List.mem_cons, Prod.mk.injEq, List.not_mem_nil, or_false]
    rintro (⟨-, rfl⟩ | ⟨-, rfl⟩ | ⟨-, rfl⟩) <;> trivial
  · exact .of_runs fun s => ⟨s, rfl⟩
  · cases hv : Entries.get? retitledSavedRow.values name with
    | none =>
      have hplace : Place.inDocument retitledSavedRow name = ⟨rowType.describe? name, none⟩ := by
        rw [Place.inDocument, hv]
        rfl
      rw [hplace]
      exact .of_runs fun s => ⟨s, rfl⟩
    | some v =>
      have := Entries.mem_of_get? hv
      rw [hvalues] at this
      revert this
      simp only [List.mem_cons, Prod.mk.injEq, List.not_mem_nil, or_false]
      rintro (⟨rfl, -⟩ | ⟨rfl, -⟩ | ⟨rfl, -⟩) <;> exact .of_runs fun s => ⟨s, rfl⟩
  · rw [List.mem_singleton.mp hk]
    exact ⟨"title", rfl, by decide⟩

theorem mirrors_retitledSavedRow :
    SavedTwice .empty .empty newRow savedRow (savedRowSession "old") retitledSavedRow resavedRow
        (savedRowSession "new") ∧
      Faithful retitledSavedRow.changedPaths.segments [] savedRow.place retitledSavedRow.place ∧
      (∀ id, retitledSavedRow.keyJson.Gives id → FirstMeeting [(idKey, id)]
        ((savedRowSession "old").store.documents "rows") 0) ∧
      ∃ record, resavedRow.Mirrors record ∧
        (savedRowSession "new").store.documents "rows" = [record] := by
  have hrepresentable : ∀ doc : Document, doc.values.map Prod.fst = ["id", "n", "title"] →
      representableEntries doc.values → doc.Representable := by
    rintro ⟨type, values, dirty, raw⟩ hnames hentries
    exact ⟨by rw [hnames]; decide, hentries⟩
  have hkey : ∀ id, retitledSavedRow.keyJson.Gives id → id = .string "a" := by
    have hdetermined : retitledSavedRow.keyJson.Determined := .of_runs fun s => ⟨s, rfl⟩
    exact fun id hid => hdetermined _ _ hid ⟨.fresh, .fresh, rfl⟩
  have hown : ∀ id, retitledSavedRow.keyJson.Gives id → FirstMeeting [(idKey, id)]
      ((savedRowSession "old").store.documents "rows") 0 := by
    intro id hid
    rw [hkey id hid]
    exact ⟨⟨storedRow "a" (.ofInt64 1) "old", rfl, rfl⟩, fun j hj => by omega⟩
  have hwf : (savedRowSession "old").store.WellFormed := by
    refine wellFormed_onlyRecord (Json.wellFormed_object.mpr ⟨by decide, ?_⟩) .fresh
    simp [storedRow, Json.ofInt64, Json.WellFormed]
  have hpatch : ∀ p, retitledSavedRow.incrementalPatch.Gives p → p.WellFormed := by
    intro p hp
    have hdetermined : retitledSavedRow.incrementalPatch.Determined := .of_runs fun s => ⟨s, rfl⟩
    obtain rfl : p = newTitle := hdetermined _ _ hp ⟨.fresh, .fresh, rfl⟩
    intro e he
    rw [List.mem_singleton.mp he]
    trivial
  obtain ⟨record, hmirrors, hdocuments, -⟩ := savedTwice_retitledSavedRow.mirrors rfl
    (hrepresentable _ rfl ⟨trivial, trivial, trivial, trivial⟩)
    (hrepresentable _ rfl ⟨trivial, trivial, trivial, trivial⟩) (storedApart_row rfl rfl)
    faithful_retitledSavedRow hwf hpatch hown
  exact ⟨savedTwice_retitledSavedRow, faithful_retitledSavedRow, hown, record, hmirrors, hdocuments⟩

/-! ### A reference that was changed -/

/-- Authors have a name. -/
def authorType : DocumentType where
  name := "Author"
  className := "Author"
  collection := some "authors"
  fields := [{ Field.ofKind "id" (.scalar .objectId) with storageName := idKey },
    .ofKind "name" (.scalar .string)]
  primaryKey := some "id"
  isDynamic := false
  allowsInheritance := false
  superclass := none

/-- Posts refer to their author. -/
def postType : DocumentType where
  name := "Post"
  className := "Post"
  collection := some "posts"
  fields := [{ Field.ofKind "id" (.scalar .objectId) with storageName := idKey },
    .ofKind "author" (.reference "Author"), .ofKind "title" (.scalar .string)]
  primaryKey := some "id"
  isDynamic := false
  allowsInheritance := false
  superclass := none

theorem postType_built : postType.Built := by
  let plain : Declaration := (Declaration.document "Post").inCollection "posts"
  exact ⟨(plain.withField (.ofKind "author" (.reference "Author"))).withField
    (.ofKind "title" (.scalar .string)), rfl⟩

/-- A stored post. -/
def storedPost (author title : String) : Object :=
  [(idKey, .string "p"), ("author", .string author), ("title", .string title)]

/-- A session whose only record is a post. -/
def postSession (author title : String) : Session :=
  onlyRecord "posts" (storedPost author title) .fresh

/-- A post that holds its author and was never saved. -/
def newPost : Document :=
  ⟨postType, [("author", .document ⟨authorType, [("id", .string "u")], .empty, none⟩),
    ("id", .string "p"), ("title", .string "old")], .empty, none⟩

/-- The post after its first save. -/
def savedPost : Document :=
  newPost.persisted (storedPost "u" "old")

/-- Gives the documents that are visited another key. -/
def rekeying : Visitor Unit :=
  ⟨fun l => ((), l), fun d => ((), d), fun doc => ((), doc.assign [("id", .string "v")]), fun _ => ()⟩

/-- The saved post whose author has another key. -/
def reattributedPost : Document :=
  (savedPost.visit "author" [] rekeying).2

/-- The saved post with another key of the author and another title. -/
def editedPost : Document :=
  reattributedPost.assign [("title", .string "new")]

/-- The post after its second save. -/
def resavedPost : Document :=
  editedPost.persisted (storedPost "v" "new")

theorem save_newPost : newPost.save .empty .empty = (savedPost, .ok (), postSession "u" "old") :=
  rfl

/-- The patch has the title only: references are not followed. -/
theorem save_editedPost :
    editedPost.save .empty (postSession "u" "old") = (resavedPost, .ok (), postSession "u" "new") := by
  have hpatch : editedPost.incrementalPatch.runFrom .fresh = (.ok newTitle, .fresh) := rfl
  have hid : editedPost.keyJson.runFrom .fresh = (.ok (.string "p"), .fresh) := rfl
  have hraw : editedPost.toStorage.runFrom .fresh = (.ok (storedPost "v" "new"), .fresh) := rfl
  rw [Document.save_of_only (s := postSession "u" "old") .empty rfl rfl rfl hpatch rfl hid rfl rfl rfl
    hraw]
  rfl

/-- Assigning an attribute is a tracked edit, whether it is accepted or not. -/
theorem Document.edited_assign (doc : Document) (name : String)
    (hname : IsAttributeName (doc.type.attributeOf name)) (v : Value) :
    Edited none doc (doc.assign [(name, v)]) := by
  simp only [assign, List.foldl_cons, List.foldl_nil]
  cases hset : doc.set name v with
  | error cause => exact .refl none doc
  | ok doc' => exact .set (.refl none doc) hname (Option.some_ne_none _).symm hset

theorem edited_editedPost : Document.Edited (some "id") savedPost editedPost := by
  have hname : IsAttributeName "id" := ⟨by decide, by decide⟩
  have hassign : ∀ doc : Document, Document.Edited none doc (doc.assign [("id", .string "v")]) :=
    fun doc => doc.edited_assign "id" hname (.string "v")
  have henter : savedPost.enter .embedded "author" = .ok ("author", savedPost) := rfl
  have hvisit : Document.Edited (some "id") savedPost reattributedPost :=
    .visit (.refl _ _) henter ⟨by decide, by decide⟩ (by decide) trivial (fun _ => .refl)
      (fun _ => .refl) hassign
  have hset : reattributedPost.set "title" (.string "new") = .ok editedPost := rfl
  exact .set hvisit ⟨by decide, by decide⟩ (by decide) hset

/-- The record still has the key that the author had, the snapshot has the other one. -/
theorem editedPost_not_mirrors :
    ∃ record, SavedTwice .empty .empty newPost savedPost (postSession "u" "old") editedPost resavedPost
        (postSession "u" "new") ∧
      (postSession "u" "new").store.documents "posts" = [record] ∧ ¬ resavedPost.Mirrors record := by
  refine ⟨storedPost "u" "new", ⟨postType_built, rfl, save_newPost, edited_editedPost,
    save_editedPost⟩, rfl, ?_⟩
  rintro ⟨raw, hraw, -, hequal⟩
  obtain rfl : storedPost "v" "new" = raw := Option.some.inj hraw
  exact absurd hequal (by decide)

end DocumentMapper
