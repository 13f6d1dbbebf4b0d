import DocumentMapper.Mapper.Selection
import DocumentMapper.Proofs.Runs
import DocumentMapper.Proofs.Segments

/-!
# What a loaded document has of its record

A selection reads records of its collection, reduces them to the paths that it asks for and resolves
references. None of this touches the id of a record, the type that was found for it, or the
collections of the store. So a loaded document can be traced back to its record.

## Main results

* `Object.project_of_included`: a selection of paths copies them to the id;
* `Object.get?_project`: it keeps the id;
* `resolveDocuments_eq_ok`: resolving references keeps the types and the stored forms;
* `meeting_eq_ok_iff`: a search finds the records that meet its filter;
* `Selection.all_run`: every loaded document has the id of a record that meets the query.
-/

namespace DocumentMapper

open Text

/-! ### Selected paths -/

namespace Object

/-- Copying a path from a record into what was kept of it leaves the id as it was. -/
theorem get?_place {doc kept : Object} {path : String} {v : Json}
    (hv : doc.getPath? path = some v) (hkept : kept.get? idKey = doc.get? idKey) :
    (place kept path v).get? idKey = doc.get? idKey := by
  unfold place
  cases hset : kept.setPath path v with
  | error cause => exact hkept
  | ok changed =>
    cases hsegments : dottedSegments path with
    | nil =>
      have := splitAtChar_ne_nil '.' path.toList
      simp only [dottedSegments, List.map_eq_nil_iff] at hsegments
      exact absurd hsegments this
    | cons first rest =>
      by_cases hfirst : first = idKey
      · -- The path leads into the id, and what it leads to is there already.
        have hsame : (Json.object kept).getPath? (dottedSegments path) = some v := by
          rw [← hv, getPath?, hsegments, hfirst]
          simp only [Json.getPath?, Json.child?]
          rw [hkept]
        have hne : dottedSegments path ≠ [] := by simp [hsegments]
        simp only [setPath, Json.setSegments_getPath? path hne hsame] at hset
        cases hset
        exact hkept
      · exact (get?_setPath_of_ne hsegments hfirst hset).trans hkept

/-- Copying several paths leaves the id as it was. -/
theorem get?_foldl_place {doc kept : Object} (paths : List String)
    (hkept : kept.get? idKey = doc.get? idKey) :
    Entries.get? (paths.foldl
      (fun kept path =>
        match doc.getPath? path with
        | some v => place kept path v
        | none => kept) kept) idKey = doc.get? idKey := by
  induction paths generalizing kept with
  | nil => exact hkept
  | cons path paths ih =>
    simp only [List.foldl_cons]
    cases hv : doc.getPath? path with
    | none => exact ih hkept
    | some v => exact ih (get?_place hv hkept)

/-- What is kept of a record includes its id. -/
theorem get?_keepPaths (doc : Object) (paths : List String) :
    (doc.keepPaths true paths).get? idKey = doc.get? idKey := by
  unfold keepPaths
  refine get?_foldl_place paths ?_
  cases hid : doc.get? idKey <;> simp [Entries.get?]

/-- A selection of paths that are all to be kept. If it asks for the id only, everything is kept. -/
theorem project_of_included (doc : Object) {projection : Object}
    (h : ∀ e ∈ projection, isIncluded e.2 = true) :
    doc.project projection =
      if (selectedPaths projection).isEmpty then doc
      else doc.keepPaths true ((selectedPaths projection).map Prod.fst) := by
  have hid : keepsId projection = true := by
    unfold keepsId
    cases hflag : projection.get? idKey with
    | none => rfl
    | some flag => exact h _ (Entries.mem_of_get? hflag)
  have hkept : (selectedPaths projection).filter (fun e => isIncluded e.2) =
      selectedPaths projection := by
    rw [List.filter_eq_self]
    intro e he
    exact h e (List.mem_filter.mp he).1
  unfold project
  simp only [hkept, hid]
  split
  · rename_i hempty
    simp [List.isEmpty_iff.mp hempty, dropPaths]
  · rfl

/-- **A selection that lists what to keep keeps the id.** -/
theorem get?_project (doc : Object) {projection : Object}
    (h : ∀ e ∈ projection, isIncluded e.2 = true) :
    (doc.project projection).get? idKey = doc.get? idKey := by
  rw [project_of_included doc h]
  split
  · rfl
  · exact get?_keepPaths doc _

end Object

/-! ### Searches -/

/-- **A search goes through all records and finds those that meet the filter.** -/
theorem meeting_eq_ok_iff {filter : Object} {docs found : List Object} :
    meeting filter docs = .ok found ↔
      (∀ doc ∈ docs, ∃ holds, doc.meets filter = .ok holds) ∧
        found = docs.filter fun doc => (doc.meets filter).toOption == some true := by
  induction docs generalizing found with
  | nil =>
    simp only [meeting, List.not_mem_nil, false_implies, implies_true, true_and, List.filter_nil]
    exact ⟨fun h => (Except.ok.inj h).symm, fun h => h ▸ rfl⟩
  | cons doc rest ih =>
    simp only [meeting, bind_eq_ok, ih, List.forall_mem_cons]
    constructor
    · rintro ⟨holds, hholds, more, ⟨hanswers, rfl⟩, h⟩
      refine ⟨⟨⟨holds, hholds⟩, hanswers⟩, ?_⟩
      rw [← Except.ok.inj h, List.filter_cons, hholds]
      cases holds <;> rfl
    · rintro ⟨⟨⟨holds, hholds⟩, hanswers⟩, rfl⟩
      refine ⟨holds, hholds, _, ⟨hanswers, rfl⟩, ?_⟩
      rw [List.filter_cons, hholds]
      cases holds <;> rfl

/-- What a search finds is among the records and meets the filter. -/
theorem mem_of_meeting {filter : Object} {docs found : List Object} {doc : Object}
    (h : meeting filter docs = .ok found) (hdoc : doc ∈ found) :
    doc ∈ docs ∧ doc.meets filter = .ok true := by
  obtain ⟨hanswers, rfl⟩ := meeting_eq_ok_iff.mp h
  obtain ⟨hmem, hmeets⟩ := List.mem_filter.mp hdoc
  obtain ⟨holds, hholds⟩ := hanswers doc hmem
  rw [hholds] at hmeets ⊢
  obtain rfl : holds = true := by simpa [Except.toOption] using hmeets
  exact ⟨hmem, rfl⟩

/-- Every document that a search finds is a record that meets the filter, or what a selection of
paths leaves of one. -/
theorem Store.find_eq_ok {s : Store} {collection : String} {filter : Object}
    {options : FindOptions} {found : List Object} {raw : Object}
    (h : s.find collection filter options = .ok found) (hraw : raw ∈ found) :
    ∃ record ∈ s.documents collection, record.meets filter = .ok true ∧
      raw = match options.projection with
        | some projection => record.project projection
        | none => record := by
  obtain ⟨all, hmeeting, h⟩ := bind_eq_ok.mp h
  have hsorted : ∀ doc ∈ (if options.sort.isEmpty then all
      else stableSort (fun a b => sortOrder options.sort a b == .lt) all), doc ∈ all := by
    intro doc hdoc
    split at hdoc
    · exact hdoc
    · exact (stableSort_perm _ all).mem_iff.mp hdoc
  have hcut : ∀ cut : List Object, (∀ doc ∈ cut, doc ∈ all) → raw ∈ (match options.projection with
        | some projection => cut.map fun (doc : Object) => doc.project projection
        | none => cut) →
      ∃ record ∈ s.documents collection, record.meets filter = .ok true ∧
        raw = match options.projection with
          | some projection => record.project projection
          | none => record := by
    intro cut hsub hmem
    cases hprojection : options.projection with
    | none =>
      rw [hprojection] at hmem
      obtain ⟨hrecord, hmeets⟩ := mem_of_meeting hmeeting (hsub raw hmem)
      exact ⟨raw, hrecord, hmeets, rfl⟩
    | some projection =>
      rw [hprojection] at hmem
      obtain ⟨record, hcut, rfl⟩ := List.mem_map.mp hmem
      obtain ⟨hrecord, hmeets⟩ := mem_of_meeting hmeeting (hsub record hcut)
      exact ⟨record, hrecord, hmeets, rfl⟩
  cases h
  refine hcut _ (fun doc hdoc => ?_) hraw
  refine hsorted doc (List.mem_of_mem_drop (i := options.skip) ?_)
  cases hlimit : options.limit with
  | none =>
    rw [hlimit] at hdoc
    exact hdoc
  | some n =>
    rw [hlimit] at hdoc
    exact List.mem_of_mem_take hdoc

/-! ### References -/

namespace Resolution

/-- Fetching documents only logs lookups. -/
theorem fetchAll_collections (c : Catalog) (hopsLeft : Nat) (wanted : List (String × Wanted))
    (state : Resolution) (store : Store) :
    (fetchAll c hopsLeft wanted state store).2.2.collections = store.collections := by
  induction wanted generalizing state store with
  | nil => rfl
  | cons entry rest ih =>
    simp only [fetchAll]
    rw [ih]
    rfl

/-- The rounds only log lookups. -/
theorem rounds_collections (c : Catalog) (hops : Nat) (wanted : Entries Wanted) (state : Resolution)
    (store : Store) : (rounds c hops wanted state store).2.collections = store.collections := by
  induction hops generalizing wanted state store with
  | zero => rfl
  | succ hopsLeft ih =>
    unfold rounds
    have hfetched := fetchAll_collections c hopsLeft wanted state store
    revert hfetched
    rcases fetchAll c hopsLeft wanted state store with ⟨keys, state', store'⟩
    intro hfetched
    split
    · rfl
    · simp only
      split
      · exact hfetched
      · split
        · rw [ih]
          exact hfetched
        · exact hfetched

end Resolution

/-- Putting documents in place of references keeps the type and the stored form. -/
theorem Document.attach_run (c : Catalog) (link : Link) (d : Document) (s : Linking) :
    ((d.attach c link).run s).1.type = d.type ∧ ((d.attach c link).run s).1.raw = d.raw := by
  obtain ⟨type, values, dirty, raw⟩ := d
  exact ⟨rfl, rfl⟩

/-- The same for several documents. -/
theorem map_mapM_attach (c : Catalog) (link : Link) (docs : List Document) (s : Linking) :
    ((docs.mapM fun (doc : Document) => doc.attach c link).run s).1.map
        (fun d => (d.type, d.raw)) = docs.map fun d => (d.type, d.raw) := by
  induction docs generalizing s with
  | nil => rfl
  | cons e rest ih =>
    rw [List.mapM_cons]
    obtain ⟨htype, hraw⟩ := e.attach_run c link s
    exact List.cons_eq_cons.mpr ⟨Prod.ext htype hraw, ih _⟩

/-- **Resolving references keeps types, stored forms and collections.** -/
theorem resolveDocuments_eq_ok {c : Catalog} {hops : Nat} {docs resolved : List Document}
    {store store' : Store} (h : resolveDocuments c hops docs store = (.ok resolved, store')) :
    store'.collections = store.collections ∧
      resolved.map (fun d => (d.type, d.raw)) = docs.map fun d => (d.type, d.raw) := by
  unfold resolveDocuments at h
  split at h
  · simp only [Prod.mk.injEq, Except.ok.injEq] at h
    obtain ⟨rfl, rfl⟩ := h
    exact ⟨rfl, rfl⟩
  · rcases hfetch : Resolution.fetchFrom c hops (docs.flatMap (·.references)) store with
      ⟨result, fetched⟩
    have hcollections : fetched.collections = store.collections := by
      unfold Resolution.fetchFrom at hfetch
      split at hfetch
      · rename_i wanted hwanted
        have := Resolution.rounds_collections c hops wanted Resolution.empty store
        rw [hfetch] at this
        exact this
      · simp only [Prod.mk.injEq] at hfetch
        rw [← hfetch.2]
    simp only [hfetch, Prod.mk.injEq] at h
    obtain ⟨hresult, rfl⟩ := h
    refine ⟨hcollections, ?_⟩
    cases result with
    | error cause => cases hresult
    | ok state =>
      cases hresult
      exact map_mapM_attach c _ docs _

namespace Selection

/-- The paths to load are listed as paths to keep. -/
theorem findOptions_included {m : Mapper} {q : Selection} {options : FindOptions}
    {projection : Object} (h : q.findOptions m = .ok options)
    (hprojection : options.projection = some projection) :
    ∀ e ∈ projection, Object.isIncluded e.2 = true := by
  have hfold : ∀ (paths : List String) (acc : Object), (∀ e ∈ acc, Object.isIncluded e.2 = true) →
      ∀ e ∈ paths.foldl (fun acc path => Entries.insert acc path (Json.ofNat 1)) acc,
        Object.isIncluded e.2 = true := by
    intro paths
    induction paths with
    | nil => exact fun acc hacc => hacc
    | cons path paths ih =>
      intro acc hacc
      refine ih _ fun e he => ?_
      rcases Entries.mem_insert he with he | rfl
      · exact hacc e he
      · rfl
  obtain ⟨sort, -, h⟩ := bind_eq_ok.mp h
  obtain ⟨paths, -, h⟩ := bind_eq_ok.mp h
  cases h
  simp only at hprojection
  split at hprojection
  · cases hprojection
  · cases hprojection
    exact hfold paths [] (by simp)

/-- **Every loaded document has the id of a record that meets the query**, and loading changes no
collection. -/
theorem all_run {m : Mapper} {q : Selection} {s t : Session} {loaded : List Document}
    (h : (q.all m).runFrom s = (.ok loaded, t)) :
    ∃ query, (q.toQuery m).runFrom s.supply = (.ok query, t.supply) ∧
      (∀ name, t.store.documents name = s.store.documents name) ∧
      ∀ d ∈ loaded, ∃ record ∈ s.store.documents q.collection, record.meets query = .ok true ∧
        ∃ raw : Object, d.raw = some raw ∧ raw.get? idKey = record.get? idKey := by
  simp only [all, Work.runFrom_bind_eq_ok, Work.runFrom_drawing, Work.runFrom_ofExcept,
    Work.runFrom_ask, Work.runFrom_onStore, Prod.mk.injEq, mapError_eq_ok] at h
  obtain ⟨query, _, ⟨hquery, rfl⟩, options, _, ⟨hoptions, rfl⟩, raws, _, ⟨hraws, rfl⟩, hresolve,
    rfl⟩ := h
  obtain ⟨hcollections, hloaded⟩ := resolveDocuments_eq_ok (Prod.ext hresolve rfl)
  refine ⟨query, Prod.ext hquery rfl, fun name => by simp only [Store.documents, hcollections],
    fun d hd => ?_⟩
  have hd' := hloaded ▸ List.mem_map_of_mem (f := fun d : Document => (d.type, d.raw)) hd
  obtain ⟨e, he, heq⟩ := List.mem_map.mp hd'
  have hraw := (Prod.mk.inj heq).2.symm
  obtain ⟨raw, hmem, rfl⟩ := List.mem_map.mp he
  obtain ⟨record, hrecord, hmeets, hform⟩ := Store.find_eq_ok hraws hmem
  refine ⟨record, hrecord, hmeets, raw, hraw, ?_⟩
  rw [hform]
  cases hprojection : options.projection with
  | none => rfl
  | some projection =>
    exact Object.get?_project record (findOptions_included hoptions hprojection)

/-- The same without the query. -/
theorem all_eq_ok {m : Mapper} {q : Selection} {s t : Session} {loaded : List Document}
    (h : (q.all m).runFrom s = (.ok loaded, t)) :
    (∀ name, t.store.documents name = s.store.documents name) ∧
      ∀ d ∈ loaded, ∃ record ∈ s.store.documents q.collection, ∃ raw : Object,
        d.raw = some raw ∧ raw.get? idKey = record.get? idKey := by
  obtain ⟨query, -, hdocuments, hloaded⟩ := all_run h
  refine ⟨hdocuments, fun d hd => ?_⟩
  obtain ⟨record, hrecord, -, hraw⟩ := hloaded d hd
  exact ⟨record, hrecord, hraw⟩

end Selection

end DocumentMapper
