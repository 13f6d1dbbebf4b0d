import DocumentMapper.Document.View
import DocumentMapper.Mapper.Selection
import DocumentMapper.Proofs.PatchEdits
import DocumentMapper.Proofs.SaveStages

/-!
# Two writers

Two documents that were loaded before may send their patches to the same record. Where the patches
have no path in common, and none leads into a path of the other, it does not matter which of them is
sent first: neither overwrites what the other one has written.

A patch is taken to be the same whenever it is drawn (`Document.Sends`). Two patches that draw from
one generator do get different values depending on who comes first. Paths are apart when their
segments are, and two segments that read as the same position of an array are not.

## Main results

* `Object.updated_comm`: two patches change one record in either order;
* `Sent.comm`: and so they do a list of records;
* `Document.save_save_comm`: two saves lead to the same store in either order, and at each path of
  a patch the store has what the save of that patch alone would have put there.
-/

namespace DocumentMapper

open Text

/-! ### What stands at some paths -/

/-- Two documents have the same at some paths. A missing value counts as null. -/
def Object.SameAt (paths : List String) (a b : Object) : Prop :=
  ∀ path ∈ paths, ((a.getPath? path).getD .null).equal ((b.getPath? path).getD .null) = true

namespace Object

/-- Documents have the same at some paths if their contents do. -/
theorem sameAt_of_valueAt {paths : List String} {a b : Object} (ha : a.WellFormed)
    (hb : b.WellFormed)
    (h : ∀ path ∈ paths, Content.valueAt (dottedSegments path) (some a.content) =
      Content.valueAt (dottedSegments path) (some b.content)) : SameAt paths a b := by
  have hread : ∀ (doc : Object), doc.WellFormed → ∀ path,
      ((doc.getPath? path).getD .null).WellFormed ∧ ((doc.getPath? path).getD .null).content =
        Content.valueAt (dottedSegments path) (some doc.content) := by
    intro doc hdoc path
    rw [← content_getPath?]
    cases hpart : doc.getPath? path with
    | none => exact ⟨trivial, rfl⟩
    | some part => exact ⟨Json.wellFormed_getPath? hdoc hpart, rfl⟩
  intro path hpath
  obtain ⟨hwa, hca⟩ := hread a ha path
  obtain ⟨hwb, hcb⟩ := hread b hb path
  rw [Json.equal_iff_content _ _ hwa hwb, hca, hcb, h path hpath]

/-- A well-formed document is equal to itself. -/
theorem equal_self {doc : Object} (hdoc : doc.WellFormed) : doc.equal doc = true :=
  Json.WellFormed.equal_self hdoc

/-- A well-formed document has the same as itself at any paths. -/
theorem sameAt_self (paths : List String) {doc : Object} (hdoc : doc.WellFormed) :
    SameAt paths doc doc :=
  sameAt_of_valueAt hdoc hdoc fun _ _ => rfl

end Object

/-! ### One record -/

/-- No path of one patch is a path of the other or leads into one. -/
def Patch.ApartFrom (p q : Patch) : Prop :=
  ∀ a ∈ p.paths, ∀ b ∈ q.paths, Apart (dottedSegments a) (dottedSegments b)

/-- Being apart works both ways. -/
theorem Patch.ApartFrom.symm {p q : Patch} (h : p.ApartFrom q) : q.ApartFrom p :=
  fun b hb a ha => (h a ha b hb).symm

/-- The edits of patches that are apart are made at paths that are apart. -/
theorem Patch.ApartFrom.allApart {p q : Patch} (h : p.ApartFrom q) : AllApart p.edits q.edits := by
  intro a ha b hb
  obtain ⟨path, hpath, ha⟩ := Patch.mem_edits ha
  obtain ⟨other, hother, hb⟩ := Patch.mem_edits hb
  rw [ha, hb]
  exact h path hpath other hother

/-- Making the edits of a patch leaves alone what stands at a path that is apart from all of its
paths. -/
theorem Patch.valueAt_edits {p : Patch} {path : String}
    (h : ∀ other ∈ p.paths, Apart (dottedSegments path) (dottedSegments other))
    {part part' : Option Content} (hrun : runEdits p.edits part = some part') :
    Content.valueAt (dottedSegments path) part' = Content.valueAt (dottedSegments path) part := by
  refine valueAt_runEdits (fun edit hedit => ?_) hrun
  obtain ⟨other, hother, hedit⟩ := mem_edits hedit
  rw [hedit]
  exact h other hother

namespace Object

/-- Sending a patch leaves alone what stands at the paths of a patch that is apart from it. -/
theorem sameAt_updated {p q : Patch} (hq : q.Sendable) (hapart : p.ApartFrom q) {id : Json}
    {doc doc' : Object} (hdoc : doc.WellFormed)
    (h : doc.updated [(idKey, id)] q.toUpdate = .ok doc') : SameAt p.paths doc' doc := by
  obtain ⟨-, hrun, hdoc', -⟩ := updated_eq_ok hq hdoc h
  exact sameAt_of_valueAt hdoc' hdoc fun path hpath => Patch.valueAt_edits (hapart path hpath) hrun

/-- **Two patches that are apart change one record in either order.** -/
theorem updated_comm {p q : Patch} (hp : p.Sendable) (hq : q.Sendable) (hapart : p.ApartFrom q)
    {a b : Json} {doc doc₁ doc₂ : Object} (hdoc : doc.WellFormed)
    (h₁ : doc.updated [(idKey, a)] p.toUpdate = .ok doc₁)
    (h₂ : doc₁.updated [(idKey, b)] q.toUpdate = .ok doc₂) :
    ∃ doc₁' doc₂', doc.updated [(idKey, b)] q.toUpdate = .ok doc₁' ∧
      doc₁'.updated [(idKey, a)] p.toUpdate = .ok doc₂' ∧ doc₂.equal doc₂' = true ∧
      SameAt p.paths doc₂ doc₁ ∧ SameAt q.paths doc₂ doc₁' := by
  obtain ⟨hplain, hrun₁, hwf₁, -⟩ := updated_eq_ok hp hdoc h₁
  obtain ⟨hplain', hrun₂, hwf₂, -⟩ := updated_eq_ok hq hwf₁ h₂
  -- The edits of the second patch can be made first, and the others then lead to the same content.
  have hboth : (runEdits q.edits (some doc.content)).bind (runEdits p.edits) =
      some (some doc₂.content) := by
    rw [← runEdits_comm hapart.allApart, hrun₁, Option.bind_some, hrun₂]
  obtain ⟨part, hfirst, hsecond⟩ := Option.bind_eq_some_iff.mp hboth
  obtain ⟨doc₁', hu₁⟩ := updated_of_runEdits hq hplain' b hdoc (by rw [hfirst]; rfl)
  obtain ⟨-, hrun₁', hwf₁', -⟩ := updated_eq_ok hq hdoc hu₁
  obtain rfl : part = some doc₁'.content := Option.some.inj (hfirst.symm.trans hrun₁')
  obtain ⟨doc₂', hu₂⟩ := updated_of_runEdits hp hplain a hwf₁' (by rw [hsecond]; rfl)
  obtain ⟨-, hrun₂', hwf₂', -⟩ := updated_eq_ok hp hwf₁' hu₂
  have hcontent : doc₂.content = doc₂'.content :=
    Option.some.inj (Option.some.inj (hsecond.symm.trans hrun₂'))
  refine ⟨doc₁', doc₂', hu₁, hu₂, (equal_iff_content hwf₂ hwf₂').mpr hcontent,
    sameAt_updated hq hapart hwf₁ h₂, sameAt_of_valueAt hwf₂ hwf₁' fun path hpath => ?_⟩
  exact Patch.valueAt_edits (hapart.symm path hpath) hsecond

end Object

/-! ### A list of records -/

/-- Records with the same id meet the same filters on the id. -/
theorem Object.meets_idKey_congr {a b : Object} (h : a.get? idKey = b.get? idKey) (id : Json) :
    a.meets [(idKey, id)] = b.meets [(idKey, id)] := by
  have hlookup : ∀ doc : Object, doc.lookup idKey = (doc.get? idKey).toList :=
    lookup_of_segment rfl
  have hentries : ∀ doc : Object, doc.meets [(idKey, id)] =
      (do
        let holds ← conditionHolds id (doc.get? idKey).toList 0
        if holds then return true else return false) := by
    intro doc
    rw [← hlookup doc]
    rfl
  rw [hentries, hentries, h]

namespace Sent

/-- Sending a patch keeps every record well formed. -/
theorem wellFormed {p : Patch} (hp : p.Sendable) {id : Json} {docs docs' : List Object}
    (hdocs : ∀ doc ∈ docs, doc.WellFormed) (h : Sent [(idKey, id)] p.toUpdate docs docs') :
    ∀ doc ∈ docs', doc.WellFormed := by
  induction h with
  | nowhere => exact hdocs
  | here hmeets hu =>
    obtain ⟨hdoc, hrest⟩ := List.forall_mem_cons.mp hdocs
    exact List.forall_mem_cons.mpr ⟨(Object.updated_eq_ok hp hdoc hu).2.2.1, hrest⟩
  | behind hmeets _ ih =>
    obtain ⟨hdoc, hrest⟩ := List.forall_mem_cons.mp hdocs
    exact List.forall_mem_cons.mpr ⟨hdoc, ih hrest⟩

/-- Sending a patch leaves alone what stands at the paths of a patch that is apart from it, in every
record. -/
theorem sameAt {p q : Patch} (hq : q.Sendable) (hapart : p.ApartFrom q) {id : Json}
    {docs docs' : List Object} (hdocs : ∀ doc ∈ docs, doc.WellFormed)
    (h : Sent [(idKey, id)] q.toUpdate docs docs') :
    List.Forall₂ (Object.SameAt p.paths) docs' docs := by
  have hself : ∀ rest : List Object, (∀ doc ∈ rest, doc.WellFormed) →
      List.Forall₂ (Object.SameAt p.paths) rest rest := fun rest hrest =>
    List.forall₂_same.mpr fun doc hdoc => Object.sameAt_self _ (hrest doc hdoc)
  induction h with
  | nowhere => exact .nil
  | here hmeets hu =>
    rw [List.forall_mem_cons] at hdocs
    exact .cons (Object.sameAt_updated hq hapart hdocs.1 hu) (hself _ hdocs.2)
  | behind hmeets _ ih =>
    rw [List.forall_mem_cons] at hdocs
    exact .cons (Object.sameAt_self _ hdocs.1) (ih hdocs.2)

/-- **Two patches that are apart change a list of records in either order**, whether or not they are
sent to the same record. -/
theorem comm {p q : Patch} (hp : p.Sendable) (hq : q.Sendable) (hapart : p.ApartFrom q) {a b : Json}
    {docs docs₁ docs₂ : List Object} (hdocs : ∀ doc ∈ docs, doc.WellFormed)
    (h₁ : Sent [(idKey, a)] p.toUpdate docs docs₁) (h₂ : Sent [(idKey, b)] q.toUpdate docs₁ docs₂) :
    ∃ docs₁' docs₂', Sent [(idKey, b)] q.toUpdate docs docs₁' ∧
      Sent [(idKey, a)] p.toUpdate docs₁' docs₂' ∧
      List.Forall₂ (fun doc other => Object.equal doc other = true) docs₂ docs₂' ∧
      List.Forall₂ (Object.SameAt p.paths) docs₂ docs₁ ∧
      List.Forall₂ (Object.SameAt q.paths) docs₂ docs₁' := by
  have hequal : ∀ rest : List Object, (∀ doc ∈ rest, doc.WellFormed) →
      List.Forall₂ (fun doc other => Object.equal doc other = true) rest rest := fun rest hrest =>
    List.forall₂_same.mpr fun doc hdoc => Object.equal_self (hrest doc hdoc)
  have hself : ∀ (paths : List String) (rest : List Object), (∀ doc ∈ rest, doc.WellFormed) →
      List.Forall₂ (Object.SameAt paths) rest rest := fun paths rest hrest =>
    List.forall₂_same.mpr fun doc hdoc => Object.sameAt_self _ (hrest doc hdoc)
  induction h₁ generalizing docs₂ with
  | nowhere =>
    cases h₂
    exact ⟨[], [], .nowhere, .nowhere, .nil, .nil, .nil⟩
  | @here doc doc₁ rest hmeets hu =>
    obtain ⟨hdoc, hrest⟩ := List.forall_mem_cons.mp hdocs
    obtain ⟨-, -, hdoc₁, hid⟩ := Object.updated_eq_ok hp hdoc hu
    cases h₂ with
    | @here _ doc₂ _ hmeets' hu' =>
      obtain ⟨doc₁', doc₂', hv, hv', hsame, hsameP, hsameQ⟩ :=
        Object.updated_comm hp hq hapart hdoc hu hu'
      obtain ⟨-, -, -, hid'⟩ := Object.updated_eq_ok hq hdoc hv
      rw [Object.meets_idKey_congr hid] at hmeets'
      rw [← Object.meets_idKey_congr hid'] at hmeets
      exact ⟨doc₁' :: rest, doc₂' :: rest, .here hmeets' hv, .here hmeets hv',
        .cons hsame (hequal rest hrest), .cons hsameP (hself _ rest hrest),
        .cons hsameQ (hself _ rest hrest)⟩
    | @behind _ _ rest' hmeets' hsent =>
      rw [Object.meets_idKey_congr hid] at hmeets'
      have hrest' := hsent.sameAt hq hapart hrest
      have hwf' := hsent.wellFormed hq hrest
      exact ⟨doc :: rest', doc₁ :: rest', .behind hmeets' hsent, .here hmeets hu,
        hequal _ (List.forall_mem_cons.mpr ⟨hdoc₁, hwf'⟩),
        .cons (Object.sameAt_self _ hdoc₁) hrest',
        .cons (Object.sameAt_updated hp hapart.symm hdoc hu) (hself _ _ hwf')⟩
  | @behind doc rest rest₁ hmeets hsent ih =>
    obtain ⟨hdoc, hrest⟩ := List.forall_mem_cons.mp hdocs
    cases h₂ with
    | @here _ doc₂ _ hmeets' hu' =>
      obtain ⟨-, -, hdoc₂, hid⟩ := Object.updated_eq_ok hq hdoc hu'
      have hwf₁ := hsent.wellFormed hp hrest
      rw [← Object.meets_idKey_congr hid] at hmeets
      exact ⟨doc₂ :: rest, doc₂ :: rest₁, .here hmeets' hu', .behind hmeets hsent,
        hequal _ (List.forall_mem_cons.mpr ⟨hdoc₂, hwf₁⟩),
        .cons (Object.sameAt_updated hq hapart hdoc hu') (hself _ _ hwf₁),
        .cons (Object.sameAt_self _ hdoc₂) (hsent.sameAt hp hapart.symm hrest)⟩
    | @behind _ _ rest₂ hmeets' hsent' =>
      obtain ⟨rest₁', rest₂', hfirst, hsecond, hsame, hsameP, hsameQ⟩ := ih hrest hsent'
      exact ⟨doc :: rest₁', doc :: rest₂', .behind hmeets' hfirst, .behind hmeets hsecond,
        .cons (Object.equal_self hdoc) hsame, .cons (Object.sameAt_self _ hdoc) hsameP,
        .cons (Object.sameAt_self _ hdoc) hsameQ⟩

end Sent

/-- An update under a filter is sent to a list of records, or else the records stay as they are. -/
def SentIf (sending : Prop) (filter update : Object) (docs docs' : List Object) : Prop :=
  (sending ∧ Sent filter update docs docs') ∨ (¬ sending ∧ docs' = docs)

/-- The same for patches that are not sent to every list. -/
theorem SentIf.comm {p q : Patch} {sendingP sendingQ : Prop} (hp : sendingP → p.Sendable)
    (hq : sendingQ → q.Sendable) (hapart : p.ApartFrom q) {a b : Json}
    {docs docs₁ docs₂ : List Object} (hdocs : ∀ doc ∈ docs, doc.WellFormed)
    (h₁ : SentIf sendingP [(idKey, a)] p.toUpdate docs docs₁)
    (h₂ : SentIf sendingQ [(idKey, b)] q.toUpdate docs₁ docs₂) :
    ∃ docs₁' docs₂', SentIf sendingQ [(idKey, b)] q.toUpdate docs docs₁' ∧
      SentIf sendingP [(idKey, a)] p.toUpdate docs₁' docs₂' ∧
      List.Forall₂ (fun doc other => Object.equal doc other = true) docs₂ docs₂' ∧
      List.Forall₂ (Object.SameAt p.paths) docs₂ docs₁ ∧
      List.Forall₂ (Object.SameAt q.paths) docs₂ docs₁' := by
  have hequal : ∀ rest : List Object, (∀ doc ∈ rest, doc.WellFormed) →
      List.Forall₂ (fun doc other => Object.equal doc other = true) rest rest := fun rest hrest =>
    List.forall₂_same.mpr fun doc hdoc => Object.equal_self (hrest doc hdoc)
  have hself : ∀ (paths : List String) (rest : List Object), (∀ doc ∈ rest, doc.WellFormed) →
      List.Forall₂ (Object.SameAt paths) rest rest := fun paths rest hrest =>
    List.forall₂_same.mpr fun doc hdoc => Object.sameAt_self _ (hrest doc hdoc)
  rcases h₁ with ⟨hP, hsent⟩ | ⟨hP, rfl⟩
  · have hwf₁ := hsent.wellFormed (hp hP) hdocs
    rcases h₂ with ⟨hQ, hsent'⟩ | ⟨hQ, rfl⟩
    · obtain ⟨docs₁', docs₂', hfirst, hsecond, hsame⟩ :=
        Sent.comm (hp hP) (hq hQ) hapart hdocs hsent hsent'
      exact ⟨docs₁', docs₂', .inl ⟨hQ, hfirst⟩, .inl ⟨hP, hsecond⟩, hsame⟩
    · exact ⟨docs, docs₂, .inr ⟨hQ, rfl⟩, .inl ⟨hP, hsent⟩, hequal _ hwf₁, hself _ _ hwf₁,
        hsent.sameAt (hp hP) hapart.symm hdocs⟩
  · rcases h₂ with ⟨hQ, hsent⟩ | ⟨hQ, rfl⟩
    · have hwf₂ := hsent.wellFormed (hq hQ) hdocs
      exact ⟨docs₂, docs₂, .inl ⟨hQ, hsent⟩, .inr ⟨hP, rfl⟩, hequal _ hwf₂,
        hsent.sameAt (hq hQ) hapart hdocs, hself _ _ hwf₂⟩
    · exact ⟨docs₂, docs₂, .inr ⟨hQ, rfl⟩, .inr ⟨hP, rfl⟩, hequal _ hdocs, hself _ _ hdocs,
        hself _ _ hdocs⟩

/-! ### Two saves -/

namespace Store

/-- The records of every collection are well formed. -/
def WellFormed (s : Store) : Prop :=
  ∀ name, ∀ doc ∈ s.documents name, doc.WellFormed

/-- The collections of two stores have equal records, one after the other. -/
def SameRecords (s t : Store) : Prop :=
  ∀ name, List.Forall₂ (fun doc other => Object.equal doc other = true) (s.documents name)
    (t.documents name)

/-- The records of two stores have the same at some paths. -/
def SameAt (paths : List String) (s t : Store) : Prop :=
  ∀ name, List.Forall₂ (Object.SameAt paths) (s.documents name) (t.documents name)

/-- An update that ends well was sent to its collection and to no other one. -/
theorem sentIf_of_update {s t : Store} {collection : String} {filter update : Object}
    {result : UpdateResult}
    (h : s.update collection filter update ⟨false, false⟩ = (.ok result, t)) (name : String) :
    SentIf (name = collection) filter update (s.documents name) (t.documents name) := by
  unfold Store.update at h
  rcases hchange : changeMeeting filter update false (s.documents collection) ⟨0, 0⟩ with
    ⟨cause | tally, docs⟩
  · simp [hchange] at h
  · simp only [hchange, Bool.and_false, Bool.false_eq_true, ↓reduceIte, Prod.mk.injEq] at h
    rw [← h.2]
    by_cases hname : name = collection
    · subst hname
      rw [documents_setDocuments_self]
      exact .inl ⟨rfl, sent_of_changeMeeting hchange⟩
    · exact .inr ⟨hname, documents_setDocuments_of_ne s docs (Ne.symm hname)⟩

/-- What an update makes of a collection that it can be sent to. -/
theorem documents_update_of_sentIf {s : Store} {collection name : String} {filter update : Object}
    {docs' : List Object} (h : SentIf (name = collection) filter update (s.documents name) docs') :
    (s.update collection filter update ⟨false, false⟩).2.documents name = docs' := by
  unfold Store.update
  rcases h with ⟨rfl, hsent⟩ | ⟨hname, rfl⟩
  · obtain ⟨tally, hchange⟩ := hsent.changeMeeting ⟨0, 0⟩
    simp [hchange]
  · rcases changeMeeting filter update false (s.documents collection) ⟨0, 0⟩ with
      ⟨cause | tally, docs⟩
    · exact documents_setDocuments_of_ne s docs (Ne.symm hname)
    · simpa using documents_setDocuments_of_ne s docs (Ne.symm hname)

end Store

/-- A computation comes out the same whatever generators have given. -/
def Drawing.Steady {α : Type} (x : Drawing α) : Prop :=
  ∀ s t : Supply, (x.runFrom s).1 = (x.runFrom t).1

namespace Document

/-- A document that was loaded or saved before sends a patch whenever it is saved: the patch and the
key do not depend on what generators have given, and the patch leaves the stored id alone. -/
structure Sends (d : Document) (p : Patch) : Prop where
  loaded : d.isNew = false
  patch : ∀ s, (d.incrementalPatch.runFrom s).1 = .ok p
  key : d.keyJson.Steady
  wellFormed : p.WellFormed
  leavesId : p.LeavesId

variable {d : Document} {p : Patch} {collection : String}

/-- What a save does to the store is over when the patch was sent. -/
theorem save_store (c : Catalog) (hd : d.Sends p) (hc : d.type.collection = some collection)
    (hvalid : d.validate = .ok ()) (s : Session) :
    (d.save c s).2.2.store =
      if p.isEmpty then s.store
      else
        match (d.keyJson.runFrom (d.incrementalPatch.runFrom s.supply).2).1 with
        | .ok id => (s.store.update collection [(idKey, id)] p.toUpdate ⟨false, false⟩).2
        | .error _ => s.store := by
  obtain ⟨u, hpatch⟩ : ∃ u, d.incrementalPatch.runFrom s.supply = (.ok p, u) :=
    ⟨_, Prod.ext (hd.patch s.supply) rfl⟩
  rw [save_of_loaded c s hd.loaded hc, hpatch]
  simp only [updateIn, Work.runFrom_bind, Work.runFrom_ofExcept, hvalid, Work.runFrom_drawing,
    hpatch]
  cases hempty : p.isEmpty with
  | true => rfl
  | false =>
    simp only [Bool.false_eq_true, ↓reduceIte, Work.runFrom_bind, Work.runFrom_drawing]
    cases hkey : (d.keyJson.runFrom u).1 with
    | error cause => rfl
    | ok id =>
      simp only [Work.runFrom_change]
      cases (s.store.update collection [(idKey, id)] p.toUpdate ⟨false, false⟩).1 with
      | error cause => rfl
      | ok result =>
        simp only [mapError_ok]
        cases (d.toStorage.runFrom (d.keyJson.runFrom u).2).1 <;> rfl

/-- A save that ends well has sent the patch to the collection of the document. -/
theorem sentIf_of_save {c : Catalog} (hd : d.Sends p) {s : Session}
    (hok : (d.save c s).2.1 = .ok ()) :
    ∃ collection id, d.type.collection = some collection ∧ d.validate = .ok () ∧
      (p.isEmpty = false → ∀ u, (d.keyJson.runFrom u).1 = .ok id) ∧
      ∀ name, SentIf (name = collection ∧ p.isEmpty = false) [(idKey, id)] p.toUpdate
        (s.store.documents name) ((d.save c s).2.2.store.documents name) := by
  obtain ⟨collection, sent, v, hc, hsent, hstore, -⟩ :=
    save_eq_ok_of_loaded hd.loaded (Prod.ext rfl (Prod.ext hok rfl))
  obtain ⟨hvalid, patch, u, hpatch, hcases⟩ := sendChanges_eq_ok hsent
  obtain rfl : patch = p := by
    have := hd.patch s.supply
    rw [hpatch] at this
    exact Except.ok.inj this
  rcases hcases with ⟨-, hempty, rfl⟩ | ⟨id, result, -, hempty, hid, hupdate⟩
  · refine ⟨collection, .null, hc, hvalid, by simp [hempty], fun name => .inr ⟨by simp [hempty], ?_⟩⟩
    rw [hstore]
  · refine ⟨collection, id, hc, hvalid, fun _ w => ?_, fun name => ?_⟩
    · rw [hd.key w u, hid]
    · rw [hstore]
      rcases Store.sentIf_of_update hupdate name with ⟨hname, hsent⟩ | ⟨hname, hsame⟩
      · exact .inl ⟨⟨hname, hempty⟩, hsent⟩
      · exact .inr ⟨fun h => hname h.1, hsame⟩

/-- What a save makes of a collection that the patch can be sent to. -/
theorem documents_save_of_sentIf (c : Catalog) (hd : d.Sends p)
    (hc : d.type.collection = some collection) (hvalid : d.validate = .ok ()) {id : Json}
    (hid : p.isEmpty = false → ∀ u, (d.keyJson.runFrom u).1 = .ok id) {s : Session} {name : String}
    {docs' : List Object}
    (h : SentIf (name = collection ∧ p.isEmpty = false) [(idKey, id)] p.toUpdate
      (s.store.documents name) docs') : (d.save c s).2.2.store.documents name = docs' := by
  rw [save_store c hd hc hvalid s]
  cases hempty : p.isEmpty with
  | true =>
    rcases h with ⟨⟨-, hfalse⟩, -⟩ | ⟨-, rfl⟩
    · rw [hempty] at hfalse
      cases hfalse
    · rfl
  | false =>
    simp only [Bool.false_eq_true, ↓reduceIte, hid hempty]
    refine Store.documents_update_of_sentIf ?_
    rcases h with ⟨⟨hname, -⟩, hsent⟩ | ⟨hnot, hsame⟩
    · exact .inl ⟨hname, hsent⟩
    · exact .inr ⟨fun hname => hnot ⟨hname, hempty⟩, hsame⟩

/-- **Two writers lose no update.** Two documents that send patches which are apart, and whose saves
end well one after the other, leave the same records behind in either order. At each path of a patch
every record has what the save of that patch alone would have put there. -/
theorem save_save_comm (c : Catalog) {d e : Document} {p q : Patch} (hd : d.Sends p)
    (he : e.Sends q) (hapart : p.ApartFrom q) {s : Session} (hs : s.store.WellFormed)
    (hfirst : (d.save c s).2.1 = .ok ()) (hsecond : (e.save c (d.save c s).2.2).2.1 = .ok ()) :
    (e.save c (d.save c s).2.2).2.2.store.SameRecords (d.save c (e.save c s).2.2).2.2.store ∧
      (e.save c (d.save c s).2.2).2.2.store.SameAt p.paths (d.save c s).2.2.store ∧
      (e.save c (d.save c s).2.2).2.2.store.SameAt q.paths (e.save c s).2.2.store := by
  obtain ⟨collection, a, hc, hvalid, ha, hsent⟩ := sentIf_of_save hd hfirst
  obtain ⟨collection', b, hc', hvalid', hb, hsent'⟩ := sentIf_of_save he hsecond
  have hname : ∀ name,
      List.Forall₂ (fun doc other => Object.equal doc other = true)
          ((e.save c (d.save c s).2.2).2.2.store.documents name)
          ((d.save c (e.save c s).2.2).2.2.store.documents name) ∧
        List.Forall₂ (Object.SameAt p.paths) ((e.save c (d.save c s).2.2).2.2.store.documents name)
          ((d.save c s).2.2.store.documents name) ∧
        List.Forall₂ (Object.SameAt q.paths) ((e.save c (d.save c s).2.2).2.2.store.documents name)
          ((e.save c s).2.2.store.documents name) := by
    intro name
    obtain ⟨docs₁', docs₂', hfirst', hsecond', hsame⟩ := SentIf.comm
      (fun h => ⟨h.2, hd.wellFormed, hd.leavesId⟩) (fun h => ⟨h.2, he.wellFormed, he.leavesId⟩)
      hapart (hs name) (hsent name) (hsent' name)
    have hdocs₁ := documents_save_of_sentIf c he hc' hvalid' hb hfirst'
    rw [← hdocs₁] at hsecond' hsame
    rw [documents_save_of_sentIf c hd hc hvalid ha hsecond']
    exact hsame
  exact ⟨fun name => (hname name).1, fun name => (hname name).2.1, fun name => (hname name).2.2⟩

end Document

/-! ### Two writers of one record -/

/-- A session whose only collection has one record. -/
def onlyRecord (collection : String) (record : Object) (supply : Supply) : Session :=
  ⟨Store.empty.setDocuments collection [record], supply⟩

theorem wellFormed_onlyRecord {collection : String} {record : Object} (h : record.WellFormed)
    (supply : Supply) : (onlyRecord collection record supply).store.WellFormed := by
  intro name doc hdoc
  by_cases hname : name = collection
  · subst hname
    simp only [onlyRecord, Store.documents_setDocuments_self, List.mem_singleton] at hdoc
    exact hdoc ▸ h
  · simp only [onlyRecord, Store.documents_setDocuments_of_ne _ _ (Ne.symm hname)] at hdoc
    simp [Store.empty, Store.documents] at hdoc

/-- A stored row. -/
def sharedRow : Object :=
  storedRow "a" (.ofInt64 1) "old"

/-- The row with a new title. -/
def titleWriter : Document :=
  (loadedRow sharedRow).assign [("title", .string "new")]

/-- The row with a new number. -/
def numberWriter : Document :=
  (loadedRow sharedRow).assign [("n", .int 2)]

theorem save_titleWriter :
    (titleWriter.save .empty (onlyRecord "rows" sharedRow .fresh)).2 =
      (.ok (), onlyRecord "rows" (storedRow "a" (.ofInt64 1) "new") .fresh) := by
  have hpatch : titleWriter.incrementalPatch.runFrom .fresh =
      (.ok ⟨[("title", .string "new")], []⟩, .fresh) := rfl
  have hid : titleWriter.keyJson.runFrom .fresh = (.ok (.string "a"), .fresh) := rfl
  have hraw : titleWriter.toStorage.runFrom .fresh =
      (.ok (storedRow "a" (.ofInt64 1) "new"), .fresh) := rfl
  rw [Document.save_of_only (s := onlyRecord "rows" sharedRow .fresh) .empty rfl rfl rfl hpatch rfl
    hid rfl rfl rfl hraw]
  rfl

theorem save_numberWriter :
    (numberWriter.save .empty
      (onlyRecord "rows" (storedRow "a" (.ofInt64 1) "new") .fresh)).2.1 = .ok () := by
  have hpatch : numberWriter.incrementalPatch.runFrom .fresh =
      (.ok ⟨[("n", .ofInt64 2)], []⟩, .fresh) := rfl
  have hid : numberWriter.keyJson.runFrom .fresh = (.ok (.string "a"), .fresh) := rfl
  have hraw : numberWriter.toStorage.runFrom .fresh =
      (.ok (storedRow "a" (.ofInt64 2) "old"), .fresh) := rfl
  rw [Document.save_of_only
    (s := onlyRecord "rows" (storedRow "a" (.ofInt64 1) "new") .fresh) .empty rfl rfl rfl hpatch rfl
    hid rfl rfl rfl hraw]

theorem save_save_comm_titleWriter_numberWriter :
    titleWriter.Sends ⟨[("title", .string "new")], []⟩ ∧
      numberWriter.Sends ⟨[("n", .ofInt64 2)], []⟩ ∧
      (onlyRecord "rows" sharedRow .fresh).store.WellFormed ∧
      (numberWriter.save .empty
        (titleWriter.save .empty (onlyRecord "rows" sharedRow .fresh)).2.2).2.2.store.SameRecords
        (titleWriter.save .empty
          (numberWriter.save .empty (onlyRecord "rows" sharedRow .fresh)).2.2).2.2.store := by
  have htitle : titleWriter.Sends ⟨[("title", .string "new")], []⟩ := by
    refine ⟨rfl, fun _ => rfl, fun _ _ => rfl, fun e he => ?_, fun path hpath => ?_⟩
    · rw [List.mem_singleton.mp he]
      trivial
    · rw [List.mem_singleton.mp hpath]
      decide
  have hnumber : numberWriter.Sends ⟨[("n", .ofInt64 2)], []⟩ := by
    refine ⟨rfl, fun _ => rfl, fun _ _ => rfl, fun e he => ?_, fun path hpath => ?_⟩
    · rw [List.mem_singleton.mp he]
      trivial
    · rw [List.mem_singleton.mp hpath]
      decide
  have hapart : Patch.ApartFrom ⟨[("title", .string "new")], []⟩ ⟨[("n", .ofInt64 2)], []⟩ := by
    intro a ha b hb
    rw [List.mem_singleton.mp ha, List.mem_singleton.mp hb]
    exact .inl ⟨by decide, .inl (by decide)⟩
  have hwf : (onlyRecord "rows" sharedRow .fresh).store.WellFormed := by
    refine wellFormed_onlyRecord (Json.wellFormed_object.mpr ⟨by decide, ?_⟩) .fresh
    simp [sharedRow, storedRow, Json.ofInt64, Json.WellFormed]
  have hsecond : (numberWriter.save .empty
      (titleWriter.save .empty (onlyRecord "rows" sharedRow .fresh)).2.2).2.1 = .ok () := by
    rw [save_titleWriter]
    exact save_numberWriter
  exact ⟨htitle, hnumber, hwf, (Document.save_save_comm .empty htitle hnumber hapart hwf
    (by rw [save_titleWriter]) hsecond).1⟩

/-! ### Writers that do lose an update -/

/-- No path of one patch is a path of the other, or leads into one, as they are written. -/
def Patch.WrittenApart (p q : Patch) : Prop :=
  ∀ a ∈ p.paths, ∀ b ∈ q.paths,
    ¬ dottedSegments a <+: dottedSegments b ∧ ¬ dottedSegments b <+: dottedSegments a

/-- Two documents that were loaded from the same record send patches with paths that are apart as
they are written. In either order both saves end well, but they lead to different records. -/
structure Document.LoseUpdate (c : Catalog) (d e : Document) (s : Session) : Prop where
  apart : ∃ p q, (d.incrementalPatch.runFrom s.supply).1 = .ok p ∧
    (e.incrementalPatch.runFrom s.supply).1 = .ok q ∧ p.LeavesId ∧ q.LeavesId ∧ p.WrittenApart q
  first : (d.save c s).2.1 = .ok () ∧ (e.save c (d.save c s).2.2).2.1 = .ok ()
  second : (e.save c s).2.1 = .ok () ∧ (d.save c (e.save c s).2.2).2.1 = .ok ()
  different : ¬ (e.save c (d.save c s).2.2).2.2.store.SameRecords
    (d.save c (e.save c s).2.2).2.2.store

/-- **Two documents that write one path each lose an update** if the paths are apart and the saves
lead to different records. -/
theorem Document.LoseUpdate.of_paths {c : Catalog} {d e : Document} {s sd se : Session}
    {a b collection : String} {v w : Json} {record record' : Object} {t t' : Supply}
    (hp : (d.incrementalPatch.runFrom s.supply).1 = .ok ⟨[(a, v)], []⟩)
    (hq : (e.incrementalPatch.runFrom s.supply).1 = .ok ⟨[(b, w)], []⟩)
    (ha : (dottedSegments a).head? ≠ some idKey) (hb : (dottedSegments b).head? ≠ some idKey)
    (hapart : ¬ dottedSegments a <+: dottedSegments b ∧ ¬ dottedSegments b <+: dottedSegments a)
    (hd : (d.save c s).2 = (.ok (), sd))
    (hed : (e.save c sd).2 = (.ok (), onlyRecord collection record t))
    (he : (e.save c s).2 = (.ok (), se))
    (hde : (d.save c se).2 = (.ok (), onlyRecord collection record' t'))
    (hne : record.equal record' = false) : d.LoseUpdate c e s where
  apart := by
    refine ⟨_, _, hp, hq, fun path hpath => ?_, fun path hpath => ?_, fun x hx y hy => ?_⟩
    · rw [List.mem_singleton.mp hpath]
      exact ha
    · rw [List.mem_singleton.mp hpath]
      exact hb
    · rw [List.mem_singleton.mp hx, List.mem_singleton.mp hy]
      exact hapart
  first := by rw [hd, hed]; exact ⟨rfl, rfl⟩
  second := by rw [he, hde]; exact ⟨rfl, rfl⟩
  different := by
    rw [hd, hed, he, hde]
    intro hsame
    have hrecords := hsame collection
    simp only [onlyRecord, Store.documents_setDocuments_self] at hrecords
    rw [List.forall₂_cons] at hrecords
    exact absurd hrecords.1 (by simp [hne])

/-- The type of a part, whose number comes from a counter by default. -/
def partType : DocumentType where
  name := "Part"
  className := "Part"
  collection := none
  fields := [{ Field.ofKind "n" (.scalar .int) with default := some (.counter 0 0) }]
  primaryKey := none
  isDynamic := false
  allowsInheritance := false
  superclass := none

/-- The type of a whole with two parts. -/
def wholeType : DocumentType where
  name := "Whole"
  className := "Whole"
  collection := some "wholes"
  fields := [{ Field.ofKind "id" (.scalar .objectId) with storageName := idKey },
    .ofKind "left" (.embedded partType), .ofKind "right" (.embedded partType)]
  primaryKey := some "id"
  isDynamic := false
  allowsInheritance := false
  superclass := none

/-- A mapper that knows both types. -/
def wholeMapper : Mapper := ⟨(Catalog.empty.add partType).add wholeType, .standard⟩

/-- The selection of all wholes. -/
def allWholes : Selection := ⟨wholeType, .empty, [], [], 0, none, none⟩

/-- A whole as it is loaded. -/
def loadedWhole : Document :=
  Document.ofStorage wholeMapper.catalog wholeType [(idKey, .string "a")]

/-- The whole with a new part. -/
def withPart (side : String) : Document :=
  loadedWhole.assign [(side, .document (.new partType))]

/-- The stored form of a part. -/
def storedPart (n : Int64) : Json :=
  .object [("n", .ofInt64 n)]

/-- A stored whole with some parts. -/
def storedWhole (parts : List (String × Int64)) : Object :=
  (idKey, .string "a") :: parts.map fun part => (part.1, storedPart part.2)

/-- The supply from which some numbers of the counter were drawn. -/
def supplyAfter : Nat → Supply
  | 0 => .fresh
  | n + 1 => (supplyAfter n).advance 0

/-- A save of a new part, from some record and supply: it draws a number for the patch and another
one for the whole document. -/
theorem save_withPart {side : String} {before after : List (String × Int64)} {drawn : Nat}
    {number snapshot : Int64} (hvalid : (withPart side).validate = .ok ())
    (hpatch : (withPart side).incrementalPatch.runFrom (supplyAfter drawn) =
      (.ok ⟨[(side, storedPart number)], []⟩, supplyAfter (drawn + 1)))
    (hid : (withPart side).keyJson.runFrom (supplyAfter (drawn + 1)) =
      (.ok (.string "a"), supplyAfter (drawn + 1)))
    (hu : (storedWhole before).updated [(idKey, .string "a")]
      (Patch.toUpdate ⟨[(side, storedPart number)], []⟩) = .ok (storedWhole after))
    (hraw : (withPart side).toStorage.runFrom (supplyAfter (drawn + 1)) =
      (.ok (storedWhole [(side, snapshot)]), supplyAfter (drawn + 2)))
    (hnew : (withPart side).isNew = false)
    (hc : (withPart side).type.collection = some "wholes") :
    ((withPart side).save wholeMapper.catalog
      (onlyRecord "wholes" (storedWhole before) (supplyAfter drawn))).2 =
      (.ok (), onlyRecord "wholes" (storedWhole after) (supplyAfter (drawn + 2))) := by
  rw [Document.save_of_only
    (s := onlyRecord "wholes" (storedWhole before) (supplyAfter drawn)) wholeMapper.catalog hnew hc
    hvalid hpatch rfl hid rfl rfl hu hraw]
  rfl

theorem save_left_right :
    ((withPart "left").save wholeMapper.catalog
        (onlyRecord "wholes" (storedWhole []) (supplyAfter 0))).2 =
      (.ok (), onlyRecord "wholes" (storedWhole [("left", 0)]) (supplyAfter 2)) ∧
    ((withPart "right").save wholeMapper.catalog
        (onlyRecord "wholes" (storedWhole [("left", 0)]) (supplyAfter 2))).2 =
      (.ok (), onlyRecord "wholes" (storedWhole [("left", 0), ("right", 2)]) (supplyAfter 4)) :=
  ⟨save_withPart rfl rfl rfl rfl rfl rfl rfl, save_withPart rfl rfl rfl rfl rfl rfl rfl⟩

theorem save_right_left :
    ((withPart "right").save wholeMapper.catalog
        (onlyRecord "wholes" (storedWhole []) (supplyAfter 0))).2 =
      (.ok (), onlyRecord "wholes" (storedWhole [("right", 0)]) (supplyAfter 2)) ∧
    ((withPart "left").save wholeMapper.catalog
        (onlyRecord "wholes" (storedWhole [("right", 0)]) (supplyAfter 2))).2 =
      (.ok (), onlyRecord "wholes" (storedWhole [("right", 0), ("left", 2)]) (supplyAfter 4)) :=
  ⟨save_withPart rfl rfl rfl rfl rfl rfl rfl, save_withPart rfl rfl rfl rfl rfl rfl rfl⟩

/-- **Two new parts lose an update**: which of them gets the first number of the counter depends on
who is saved first. -/
theorem withPart_loseUpdate :
    Document.LoseUpdate wholeMapper.catalog (withPart "left") (withPart "right")
      (onlyRecord "wholes" (storedWhole []) (supplyAfter 0)) :=
  .of_paths rfl rfl (by decide) (by decide) (by decide) save_left_right.1 save_left_right.2
    save_right_left.1 save_right_left.2 (by decide)

/-- The type of an open record with a list. -/
def listType : DocumentType where
  name := "Listed"
  className := "Listed"
  collection := some "lists"
  fields := [{ Field.ofKind "id" (.scalar .objectId) with storageName := idKey },
    .list "xs" (.scalar .int)]
  primaryKey := some "id"
  isDynamic := true
  allowsInheritance := false
  superclass := none

/-- A mapper that knows the type. -/
def listMapper : Mapper := ⟨Catalog.empty.add listType, .standard⟩

/-- The selection of all records with a list. -/
def allLists : Selection := ⟨listType, .empty, [], [], 0, none, none⟩

/-- A stored list of two numbers. -/
def storedList (first second : Int64) : Object :=
  [(idKey, .string "a"), ("xs", .array [.ofInt64 first, .ofInt64 second])]

/-- A record with a list as it is loaded. -/
def loadedList : Document :=
  Document.ofStorage listMapper.catalog listType (storedList 1 2)

/-- The record after its first item was assigned through a view. -/
def itemWriter : Document :=
  (loadedList.visit "xs" []
    ⟨fun l => ((), ((l.set 0 (.int 5)).toOption).getD l), fun e => ((), e), fun d => ((), d),
      fun _ => ()⟩).2

/-- The record after an attribute was assigned whose name reads as a path to the same item. What the
patch has for this path is the item as it was loaded. -/
def spelledWriter : Document :=
  loadedList.assign [("xs.00", .int 9)]

/-- A save of one of the two writers, from some stored list. -/
theorem save_listWriter {d : Document} {path : String} {number : Int64} {before after raw : Object}
    (hnew : d.isNew = false) (hc : d.type.collection = some "lists") (hvalid : d.validate = .ok ())
    (hpatch : d.incrementalPatch.runFrom .fresh = (.ok ⟨[(path, .ofInt64 number)], []⟩, .fresh))
    (hid : d.keyJson.runFrom .fresh = (.ok (.string "a"), .fresh))
    (hmeets : before.meets [(idKey, .string "a")] = .ok true)
    (hu : before.updated [(idKey, .string "a")]
      (Patch.toUpdate ⟨[(path, .ofInt64 number)], []⟩) = .ok after)
    (hraw : d.toStorage.runFrom .fresh = (.ok raw, .fresh)) :
    (d.save listMapper.catalog (onlyRecord "lists" before .fresh)).2 =
      (.ok (), onlyRecord "lists" after .fresh) := by
  rw [Document.save_of_only (s := onlyRecord "lists" before .fresh) listMapper.catalog hnew hc
    hvalid hpatch rfl hid rfl hmeets hu hraw]
  rfl

theorem incrementalPatch_itemWriter : itemWriter.incrementalPatch.runFrom .fresh =
    (.ok ⟨[("xs.0", .ofInt64 5)], []⟩, .fresh) :=
  rfl

theorem incrementalPatch_spelledWriter : spelledWriter.incrementalPatch.runFrom .fresh =
    (.ok ⟨[("xs.00", .ofInt64 1)], []⟩, .fresh) :=
  rfl

theorem save_item_spelled :
    (itemWriter.save listMapper.catalog (onlyRecord "lists" (storedList 1 2) .fresh)).2 =
      (.ok (), onlyRecord "lists" (storedList 5 2) .fresh) ∧
    (spelledWriter.save listMapper.catalog (onlyRecord "lists" (storedList 5 2) .fresh)).2 =
      (.ok (), onlyRecord "lists" (storedList 1 2) .fresh) :=
  ⟨save_listWriter rfl rfl rfl incrementalPatch_itemWriter rfl rfl rfl rfl,
    save_listWriter rfl rfl rfl incrementalPatch_spelledWriter rfl rfl rfl rfl⟩

theorem save_spelled_item :
    (spelledWriter.save listMapper.catalog (onlyRecord "lists" (storedList 1 2) .fresh)).2 =
      (.ok (), onlyRecord "lists" (storedList 1 2) .fresh) ∧
    (itemWriter.save listMapper.catalog (onlyRecord "lists" (storedList 1 2) .fresh)).2 =
      (.ok (), onlyRecord "lists" (storedList 5 2) .fresh) :=
  ⟨save_listWriter rfl rfl rfl incrementalPatch_spelledWriter rfl rfl rfl rfl,
    save_listWriter rfl rfl rfl incrementalPatch_itemWriter rfl rfl rfl rfl⟩

/-- **Two spellings of a position lose an update**: both lead to the same item. -/
theorem listWriters_loseUpdate :
    Document.LoseUpdate listMapper.catalog itemWriter spelledWriter
      (onlyRecord "lists" (storedList 1 2) .fresh) :=
  .of_paths (congrArg Prod.fst incrementalPatch_itemWriter)
    (congrArg Prod.fst incrementalPatch_spelledWriter) (by decide) (by decide) (by decide)
    save_item_spelled.1 save_item_spelled.2 save_spelled_item.1 save_spelled_item.2 (by decide)

/-- Documents that were loaded from one record and changed at paths that are apart as they are
written do not always keep their updates: the patches must not draw numbers, and must not spell one
position in two ways. -/
theorem loaded_writers_loseUpdate :
    ((allWholes.all wholeMapper).runFrom (onlyRecord "wholes" (storedWhole []) .fresh) =
        (.ok [loadedWhole], onlyRecord "wholes" (storedWhole []) .fresh) ∧
      loadedWhole.set "left" (.document (.new partType)) = .ok (withPart "left") ∧
      loadedWhole.set "right" (.document (.new partType)) = .ok (withPart "right") ∧
      Document.LoseUpdate wholeMapper.catalog (withPart "left") (withPart "right")
        (onlyRecord "wholes" (storedWhole []) .fresh)) ∧
    (allLists.all listMapper).runFrom (onlyRecord "lists" (storedList 1 2) .fresh) =
        (.ok [loadedList], onlyRecord "lists" (storedList 1 2) .fresh) ∧
      loadedList.enter .list "xs" = .ok ("xs", loadedList) ∧
      loadedList.set "xs.00" (.int 9) = .ok spelledWriter ∧
      Document.LoseUpdate listMapper.catalog itemWriter spelledWriter
        (onlyRecord "lists" (storedList 1 2) .fresh) :=
  ⟨⟨rfl, rfl, rfl, withPart_loseUpdate⟩, rfl, rfl, rfl, listWriters_loseUpdate⟩

end DocumentMapper
