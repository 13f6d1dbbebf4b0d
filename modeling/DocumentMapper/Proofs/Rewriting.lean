import DocumentMapper.Proofs.Faithfulness
import DocumentMapper.Proofs.UnmarkedForms

/-!
# A patch of changes rewrites what is stored

The stored form of a value as it was saved, with the edits that a patch of changes makes in it, is
the stored form of the value as it is now, up to blank entries. The proof follows the promise that
the changed paths make: where they lead, the patch has put the new form; where nothing is recorded,
the form is what it was; and in between, a value with parts is rewritten part by part.

The blank entries come from attributes that a visit has opened as an empty list or dict: the patch
does not know of them.

What is stored was stored when the documents in the value had other marks. A rule can look at these,
so that the value as it is without them need not be one that could be stored: what is stored for a
place is the form of one that resembles it.

## Main results

* `Tracks.rewrites`: edits rewrite what is stored for a place;
* `rewrites_document`: the same for a document whose attributes are stored one by one.
-/

namespace DocumentMapper

open Text Content Drawing

/-- What is stored for a place: the stored form of what lives there, with any marks, null counting as
nothing, or an empty object for an empty dict. -/
inductive Place.StoredAs : Place → Option Content → Prop
  | form {p q : Place} {part : Option Content} {j : Json} (hsame : q.Resembles p)
      (h : q.toJson.Gives j) (hpart : part.getD .null = j.content) : StoredAs p part
  | opened (f : Option Field) : StoredAs ⟨f, some (.dict [])⟩ (some noEntries)

/-- Faithful edits of what was stored for a place lead to what is stored for it now, up to blank
entries. -/
def Rewrites (paths : List (List String)) (front r : List String) (d : DirtyPaths)
    (before now : Place) : Prop :=
  ∀ (edits : List (List String × Edit)) (part part' : Option Content) (j : Json),
    Recorded paths front r d now → Reached paths (front ++ r) →
    Faithful paths (front ++ r) before now → RepresentableAt before.value →
    RepresentableAt now.value → EditsFor paths (front ++ r) now edits → before.StoredAs part →
    now.toJson.Gives j → runEdits edits part = some part' →
    (part'.getD .null).pruned = j.content.pruned

/-- What an object takes in of a stored form reads as the form. -/
theorem Json.getD_unlessNull (j : Json) :
    ((j.unlessNull.map Json.content).getD .null) = j.content := by
  unfold unlessNull
  split
  · cases j <;> simp_all [isNull, content]
  · rfl

/-! ### Where a changed path leads, and where none does -/

section

variable {paths : List (List String)} {position : List String} {p : Place}
  {edits : List (List String × Edit)} {part part' : Option Content} {j : Json}

/-- Where a changed path leads, the patch has put the new form. -/
theorem eq_of_changed (hantichain : ∀ k ∈ paths, ∀ k' ∈ paths, k <+: k' → k = k')
    (hmem : position ∈ paths) (hdetermined : p.toJson.Determined)
    (hedits : EditsFor paths position p edits) (hj : p.toJson.Gives j)
    (hrun : runEdits edits part = some part') : part' = j.unlessNull.map Json.content := by
  have hne : edits ≠ [] := by
    rintro rfl
    obtain ⟨edit, hedit⟩ := hedits.complete [] (by simpa using hmem)
    cases hedit
  have hall : ∀ e ∈ edits, e.1 = [] ∧ e.2.outcome = j.unlessNull.map Json.content := by
    intro e he
    obtain ⟨q, hq, hpath, j', hj', houtcome⟩ := hedits.sound e he
    have hsame := hantichain _ hmem _ hq (List.prefix_append _ _)
    obtain rfl : q = [] := List.self_eq_append_right.mp hsame
    obtain rfl := hdetermined j' j hj' hj
    exact ⟨hpath, houtcome⟩
  rw [runEdits_here hne hall] at hrun
  exact (Option.some.inj hrun).symm

/-- Where no changed path leads, what was stored is still there. -/
theorem eq_of_unchanged (hnone : ∀ q, position ++ q ∉ paths)
    (hedits : EditsFor paths position p edits) (hrun : runEdits edits part = some part') :
    part' = part := by
  rw [hedits.eq_nil hnone] at hrun
  exact (Option.some.inj hrun).symm

end

section

variable {paths : List (List String)} (hantichain : ∀ k ∈ paths, ∀ k' ∈ paths, k <+: k' → k = k')
  {front r : List String} {d : DirtyPaths} {f : Option Field}

include hantichain

/-- It is enough to look at places that no changed path leads to. -/
theorem Rewrites.of_uncovered {before now : Place}
    (h : Uncovered paths (front ++ r) → Rewrites paths front r d before now) :
    Rewrites paths front r d before now := by
  intro edits part part' j hrecorded hreached hfaithful hold hnow hedits hstored hj hrun
  by_cases hmem : front ++ r ∈ paths
  · have hdetermined := hfaithful.determined [] (by simpa using hreached)
    rw [eq_of_changed hantichain hmem hdetermined hedits hj hrun, Json.getD_unlessNull]
  · exact h (hreached.uncovered hmem) edits part part' j hrecorded hreached hfaithful hold hnow hedits
      hstored hj hrun

omit hantichain

/-- What is covered by the record of its document is not a place to look at. -/
theorem rewrites_covered {before now : Place} (hcovered : d.Covered r)
    (huncovered : Uncovered paths (front ++ r)) : Rewrites paths front r d before now :=
  fun _ _ _ _ hrecorded _ _ _ _ _ _ _ _ => absurd hcovered (hrecorded.not_covered huncovered)

/-- A place at which nothing has happened is stored as before. -/
theorem rewrites_same {p : Place} (hnothing : d.NothingAt r)
    (hinside : ∀ v q, p.value = some v → ¬ Nested d r v q)
    (hdict : p.value ≠ some (.dict [])) : Rewrites paths front r d p p := by
  intro edits part part' j hrecorded hreached hfaithful _ _ hedits hstored hj hrun
  have hdetermined := hfaithful.determined [] (by simpa using hreached)
  rw [eq_of_unchanged (hrecorded.nothing_below hnothing hinside) hedits hrun]
  cases hstored with
  | form hsame h hpart => rw [hpart, hsame.eq_of_determined hdetermined h hj]
  | opened => exact absurd rfl hdict

end

/-! ### Lists -/

/-- An item of a list is found at its position. -/
theorem Place.enter_item {f : Option Field} {items : List Value} {i : Nat}
    (h : i < Number.wordCount) :
    (Place.mk f (some (.list items))).enter (toString i) =
      (⟨f.bind (·.kind.element?), items[i]?⟩, toString i) := by
  have hposition := position?_toString h
  simp only [Place.enter, hposition, Option.bind_some]

/-- A list or dict is not stored in a field of references. -/
theorem Place.not_reference {f : Option Field} {v : Value} (hv : v.isContainer = true) {j : Json}
    (h : (Place.mk f (some v)).toJson.Gives j) :
    ∀ g, f = some g → g.kind.isReference = false := by
  intro g hg
  cases v with
  | list items => exact (takes_list h g hg).1.isReference
  | dict entries => exact (takes_dict h g hg).1.isReference
  | _ => cases hv

/-- Arrays are pruned alike if their items are. -/
theorem pruned_array {xs ys : List Content} (hlength : xs.length = ys.length)
    (h : ∀ i < xs.length, (xs[i]?.getD .null).pruned = (ys[i]?.getD .null).pruned) :
    (array xs).pruned = (array ys).pruned := by
  simp only [Content.pruned, prunedContents_eq_map, array.injEq]
  refine List.ext_getElem (by simpa using hlength) fun i hi hi' => ?_
  rw [List.length_map] at hi hi'
  have := h i hi
  rw [List.getElem?_eq_getElem hi, List.getElem?_eq_getElem hi'] at this
  simpa using this

/-- The items of a stored array read as those of its content. -/
theorem getD_map_content (js : List Json) (i : Nat) :
    ((js.map Json.content)[i]?.getD .null) = (js[i]?.getD .null).content := by
  rw [List.getElem?_map]
  cases js[i]? <;> rfl

/-- A stored array is rewritten by edits below its items, if these are. -/
theorem pruned_of_runEdits_items {edits : List (List String × Edit)} {js₀ js : List Json}
    (hlength : js₀.length = js.length) (hshort : js₀.length ≤ Number.wordCount)
    (hbelow : ∀ e ∈ edits, ∃ i < js₀.length, ∃ rest, e.1 = toString i :: rest)
    (hitems : ∀ i < js.length, ∀ new : Option Content,
      runEdits (editsBelow (toString i) edits) (some (js₀[i]?.getD .null).content) = some new →
      (new.getD .null).pruned = (js[i]?.getD .null).content.pruned) {part : Option Content}
    (hrun : runEdits edits (some (Json.array js₀).content) = some part) :
    (part.getD .null).pruned = (Json.array js).content.pruned := by
  simp only [Json.content, contentItems_eq_map] at hrun ⊢
  obtain ⟨items, rfl, hlength', hnew⟩ := runEdits_array (by rwa [List.length_map])
    (by rwa [List.length_map]) hrun
  rw [List.length_map] at hlength'
  rw [Option.getD_some]
  refine pruned_array (by rw [List.length_map]; omega) fun i hi => ?_
  obtain ⟨new, hrunItem, hnewItem⟩ := hnew i (by rw [List.length_map]; omega)
  rw [hnewItem, getD_map_content, Option.getD_some]
  refine hitems i (by omega) new ?_
  rw [← hrunItem, List.getElem_map, List.getElem?_eq_getElem (by omega), Option.getD_some]

/-- Geometries are the same if their coordinates are. -/
theorem pruned_geometry {type : String} {a b : Json} (h : a.content.pruned = b.content.pruned) :
    (geometry type a).content.pruned = (geometry type b).content.pruned := by
  simp only [geometry, Json.content, Content.pruned, Content.object.injEq]
  funext key
  by_cases htype : "type" = key
  · simp [contentEntry, htype]
  · by_cases hcoordinates : "coordinates" = key
    · simp only [contentEntry, htype, hcoordinates, ↓reduceIte]
      exact prunedPart_congr h
    · simp [contentEntry, htype, hcoordinates]

/-- No changed path leads into a geometry. -/
theorem Faithful.not_mem_geometry {paths : List (List String)} {position : List String}
    {g : Field} {before : Place} {items : List Value}
    (h : Faithful paths position before ⟨some g, some (.list items)⟩) (hg : g.geometryType?.isSome)
    (hmem : position ∉ paths) (q : List String) : position ++ q ∉ paths := by
  intro hq
  cases q with
  | nil => exact hmem (by simpa using hq)
  | cons s rest => exact (h.transparent [] s rest (by simpa using hq)).1 (.geometry hg)

/-- An edit below a list goes into one of its items: that is where changed paths are recorded, and
where they come from inside. -/
theorem EditsFor.into_items {paths : List (List String)} {front r : List String} {d : DirtyPaths}
    {f : Option Field} {items : List Value} {edits : List (List String × Edit)}
    (hedits : EditsFor paths (front ++ r) ⟨f, some (.list items)⟩ edits)
    (hrecorded : Recorded paths front r d ⟨f, some (.list items)⟩) (hmem : front ++ r ∉ paths)
    (hmarks : ∀ m ∈ d.segments, r <+: m → ∃ i < items.length, r ++ [toString i] <+: m) :
    ∀ e ∈ edits, ∃ i < items.length, ∃ rest, e.1 = toString i :: rest := by
  intro e he
  obtain ⟨q, hq, hpath, -⟩ := hedits.sound e he
  cases q with
  | nil => exact absurd (by simpa using hq) hmem
  | cons s rest =>
    rw [Place.follow_cons] at hpath
    obtain ⟨i, hi, rfl⟩ : ∃ i < items.length, s = toString i := by
      rcases hrecorded.source _ hq with hm | ⟨v, hv, hn⟩
      · obtain ⟨i, hi, hprefix⟩ := hmarks _ hm (List.prefix_append r _)
        refine ⟨i, hi, eq_of_prefix_concat (r := r) (m := r ++ s :: rest) ?_ hprefix⟩
        exact ⟨rest, by simp⟩
      · cases hv
        cases hn with
        | item hv hn => exact ⟨_, (List.getElem?_eq_some_iff.mp hv).1, rfl⟩
    exact ⟨i, hi, _, hpath⟩

/-- **A list is rewritten item by item.** -/
theorem rewrites_list {paths : List (List String)} {front r : List String} {d : DirtyPaths}
    {f : Option Field} {olds items : List Value} (huncovered : Uncovered paths (front ++ r))
    (hlength : items.length = olds.length)
    (hmarks : ∀ m ∈ d.segments, r <+: m → ∃ i < items.length, r ++ [toString i] <+: m)
    (hitems : ∀ i < items.length, ∀ g,
      Rewrites paths front (r ++ [toString i]) d ⟨g, olds[i]?⟩ ⟨g, items[i]?⟩) :
    Rewrites paths front r d ⟨f, some (.list olds)⟩ ⟨f, some (.list items)⟩ := by
  intro edits part part' j hrecorded hreached hfaithful hold hnow hedits hstored hj hrun
  have hmem : front ++ r ∉ paths := fun h => huncovered _ h (List.prefix_refl _)
  have hreference := Place.not_reference rfl hj
  obtain ⟨hshort, hitemsNow⟩ := hnow _ rfl
  obtain ⟨-, hitemsOld⟩ := hold _ rfl
  cases hstored with
  | @form _ _ _ j₀ hsame h₀ hpart =>
  obtain ⟨olds', rfl, holds, hitemsSame⟩ := hsame.list
  obtain ⟨js₀, hlength₀, hjs₀, hform₀⟩ := Place.gives_list h₀
  obtain ⟨js, hlengthJs, hjs, hform⟩ := Place.gives_list hj
  have hlengthItems : js₀.length = js.length := by omega
  have hitem : ∀ i < js.length, ∀ new : Option Content,
      runEdits (editsBelow (toString i) edits) (some (js₀[i]?.getD .null).content) = some new →
      (new.getD .null).pruned = (js[i]?.getD .null).content.pruned := by
    intro i hi new hnew
    have hword : i < Number.wordCount := by omega
    have hi₀ : i < olds'.length := by omega
    have hi : i < items.length := by omega
    have hfaithful' := hfaithful.enter (toString i)
    have hedits' := hedits.enter hmem (toString i) fun t _ _ ht => ht
    rw [Place.enter_item hword, Place.enter_item hword] at hfaithful'
    rw [Place.enter_item hword] at hedits'
    rw [List.append_assoc] at hfaithful' hedits'
    have hreached' := huncovered.reached (toString i)
    rw [List.append_assoc] at hreached'
    refine hitems i hi _ _ _ _ _ (hrecorded.item hreference i) hreached' hfaithful'
      (representableAt_item hitemsOld i) (representableAt_item hitemsNow i) hedits' ?_ ?_ hnew
    · have := hjs₀ i hi₀
      rw [← List.getElem?_eq_getElem hi₀] at this
      exact .form (.of_value _ (hitemsSame i)) this rfl
    · have := hjs i hi
      rwa [← List.getElem?_eq_getElem hi] at this
  cases hgeometry : f.bind Field.geometryType? with
  | some type =>
    rw [hgeometry] at hform₀ hform
    subst hform₀ hform
    obtain ⟨g, rfl, hg⟩ := Option.bind_eq_some_iff.mp hgeometry
    have hnone := hfaithful.not_mem_geometry (by rw [hg]; rfl) hmem
    obtain rfl := hedits.eq_nil hnone
    obtain rfl : part = part' := Option.some.inj hrun
    rw [hpart]
    exact pruned_geometry (pruned_of_runEdits_items hlengthItems (by omega)
      (fun _ he => absurd he List.not_mem_nil) hitem rfl)
  | none =>
    rw [hgeometry] at hform₀ hform
    subst hform₀ hform
    obtain rfl : part = some (Json.array js₀).content := by
      cases part with
      | none => cases hpart
      | some v => exact congrArg some hpart
    refine pruned_of_runEdits_items hlengthItems (by omega) ?_ hitem hrun
    rw [hlengthItems, hlengthJs]
    exact hedits.into_items hrecorded hmem hmarks

/-! ### Dicts -/

/-- Objects are pruned alike if what is left of their entries is the same. -/
theorem pruned_object {entry entry' : String → Option Content}
    (h : ∀ key, prunedPart (entry key) = prunedPart (entry' key)) :
    (object entry).pruned = (object entry').pruned := by
  simp only [Content.pruned, object.injEq]
  funext key
  exact h key

/-- The value of a key is found under it. -/
theorem Place.enter_entry (f : Option Field) (entries : List (String × Value)) (key : String) :
    (Place.mk f (some (.dict entries))).enter key =
      (⟨(f.bind (·.kind.element?)).map (·.renamed key), Entries.get? entries key⟩, key) :=
  rfl

/-- An entry holds the stored form of what lives at a place, or is missing where nothing does. -/
theorem EntriesGive.form {entries : List (String × Value)} {o : Object} {f : String → Option Field}
    (h : EntriesGive entries (fun key v => (Place.mk (f key) (some v)).toJson) o) (key : String) :
    ∃ j, (Place.mk (f key) (Entries.get? entries key)).toJson.Gives j ∧
      (contentEntry o key).getD .null = j.content := by
  have hkey := h key
  rw [Entries.get?_content]
  cases hv : Entries.get? entries key with
  | none =>
    rw [hv] at hkey
    exact ⟨.null, gives_pure.mpr rfl, by rw [hkey]; rfl⟩
  | some v =>
    rw [hv] at hkey
    obtain ⟨j, hj, hget⟩ := hkey
    exact ⟨j, hj, by rw [hget]; rfl⟩

/-- No edit is made below a name that is not a segment. -/
theorem editsBelow_eq_nil {paths : List (List String)} {position : List String} {p : Place}
    {edits : List (List String × Edit)} (hedits : EditsFor paths position p edits)
    (hmem : position ∉ paths) (name : String)
    (hnone : ∀ t rest, position ++ t :: rest ∈ paths → (p.enter t).2 ≠ name) :
    editsBelow name edits = [] := by
  rw [List.eq_nil_iff_forall_not_mem]
  rintro ⟨path, edit⟩ he
  obtain ⟨q, hq, hpath, -⟩ := hedits.sound _ (mem_editsBelow.mp he)
  cases q with
  | nil => exact hmem (by simpa using hq)
  | cons t rest =>
    rw [Place.follow_cons] at hpath
    exact hnone t rest hq (List.cons.inj hpath).1.symm

/-- **A dict is rewritten key by key.** -/
theorem rewrites_dict {paths : List (List String)} (hsegments : ∀ k ∈ paths, ∀ s ∈ k, IsSegment s)
    {front r : List String} {d : DirtyPaths} {f : Option Field}
    {olds entries : List (String × Value)} (huncovered : Uncovered paths (front ++ r))
    (hkeys : ∀ key, IsSegment key → ∀ g, Rewrites paths front (r ++ [key]) d
      ⟨g, Entries.get? olds key⟩ ⟨g, Entries.get? entries key⟩)
    (hother : ∀ key, ¬ IsSegment key →
      Untouched (Entries.get? olds key) (Entries.get? entries key)) :
    Rewrites paths front r d ⟨f, some (.dict olds)⟩ ⟨f, some (.dict entries)⟩ := by
  intro edits part part' j hrecorded hreached hfaithful hold hnow hedits hstored hj hrun
  have hmem : front ++ r ∉ paths := fun h => huncovered _ h (List.prefix_refl _)
  have hreference := Place.not_reference rfl hj
  obtain ⟨hnodup, hentriesNow⟩ := hnow _ rfl
  obtain ⟨-, hentriesOld⟩ := hold _ rfl
  obtain ⟨o, rfl, ho⟩ := Place.gives_dict hj
  have hmarked : ∀ k v, ¬ IsSegment k → Entries.get? entries k = some v → v.unmarked = v := by
    intro k v hk hv
    obtain ⟨hsame, hunmarked⟩ := hother k hk
    exact hunmarked v (hsame ▸ hv)
  obtain ⟨entry, rfl, hentry⟩ : ∃ entry, part = some (object entry) ∧ ∀ key,
      ∃ (q : Place) (j : Json), q.Resembles ⟨(f.bind (·.kind.element?)).map (·.renamed key),
        Entries.get? olds key⟩ ∧ q.toJson.Gives j ∧ (entry key).getD .null = j.content := by
    cases hstored with
    | form hsame h₀ hpart =>
      obtain ⟨olds', rfl, hvalues⟩ := hsame.dict
      obtain ⟨o₀, rfl, ho₀⟩ := Place.gives_dict h₀
      refine ⟨contentEntry o₀, ?_, fun key => ?_⟩
      · cases part with
        | none => cases hpart
        | some v => exact congrArg some hpart
      · obtain ⟨j, hj, hform⟩ := ho₀.form key
        exact ⟨_, j, .of_value _ (hvalues key), hj, hform⟩
    | opened =>
      exact ⟨fun _ => none, rfl, fun _ => ⟨_, .null, .refl _, gives_pure.mpr rfl, rfl⟩⟩
  obtain ⟨entry', rfl, hrunKeys⟩ := runEdits_object (hedits.ne_nil hmem) hrun
  refine pruned_object fun key => ?_
  obtain ⟨q, j₀, hsame, hj₀, hstored₀⟩ := hentry key
  obtain ⟨j', hj', hform⟩ := ho.form key
  have hreached' := huncovered.reached key
  by_cases hkey : IsSegment key
  · have hfaithful' := hfaithful.enter key
    have hedits' := hedits.enter hmem key fun t _ _ ht => ht
    rw [Place.enter_entry, Place.enter_entry, List.append_assoc] at hfaithful'
    rw [Place.enter_entry, List.append_assoc] at hedits'
    rw [List.append_assoc] at hreached'
    have hnew := hkeys key hkey _ _ _ _ _ (hrecorded.entry hreference hnodup hmarked hkey)
      hreached' hfaithful' (representableAt_entry hentriesOld key)
      (representableAt_entry hentriesNow key) hedits' (.form hsame hj₀ hstored₀) hj' (hrunKeys key)
    exact prunedPart_congr (by rw [hnew, hform])
  · -- A key that is not a segment has kept its value, and no changed path leads there.
    have hnil := editsBelow_eq_nil hedits hmem key fun t rest hq ht => by
      obtain rfl : t = key := ht
      exact hkey (hsegments _ hq t (by simp))
    have hrunKey := hrunKeys key
    rw [hnil] at hrunKey
    obtain hentry : entry key = entry' key := Option.some.inj hrunKey
    rw [(hother key hkey).1] at hj'
    have hdetermined := hfaithful.determined [key] hreached'
    simp only [Place.enter_entry, Place.follow, (hother key hkey).1] at hdetermined
    obtain rfl := hsame.eq_of_determined hdetermined hj₀ hj'
    exact prunedPart_congr (by rw [← hentry, hstored₀, hform])

/-! ### Attributes -/

/-- Nothing lives below an empty dict. -/
theorem Place.follow_empty_dict (f : Option Field) (q : List String) (doc : Document) :
    ((Place.mk f (some (.dict []))).follow q).1.value ≠ some (.document doc) := by
  cases q with
  | nil => simp [Place.follow]
  | cons s q =>
    rw [Place.follow_cons, Place.enter_entry, Place.follow_of_none rfl]
    nofun

/-- Where anything or a list is accepted, lists are not stored as geometries. -/
theorem Field.geometryType?_eq_none {f : Field}
    (h : f.kind.isAny = true ∨ f.kind.isList = true) : f.geometryType? = none := by
  unfold geometryType?
  cases hkind : f.kind with
  | scalar s =>
    rw [hkind] at h
    cases s <;> simp_all [Kind.isAny, Kind.isList, Scalar.geoJsonType?]
  | _ => rfl

/-- **An attribute is rewritten**, up to blank entries also where a visit has opened it. -/
theorem prunedPart_of_opened {paths : List (List String)}
    (hantichain : ∀ k ∈ paths, ∀ k' ∈ paths, k <+: k' → k = k') {front r : List String}
    {d : DirtyPaths} {t : DocumentType} {name : String} {before opened now : Option Value}
    (hopened : Opened t name before opened) (htracks : Tracks d r opened now)
    (hrewrites : Rewrites paths front r d ⟨t.describe? name, opened⟩ ⟨t.describe? name, now⟩)
    {edits : List (List String × Edit)} {part' : Option Content} {p : Place} {j₀ j : Json}
    (hrecorded : Recorded paths front r d ⟨t.describe? name, now⟩)
    (hreached : Reached paths (front ++ r))
    (hfaithful : Faithful paths (front ++ r) ⟨t.describe? name, before⟩ ⟨t.describe? name, now⟩)
    (hold : RepresentableAt before) (hnow : RepresentableAt now)
    (hedits : EditsFor paths (front ++ r) ⟨t.describe? name, now⟩ edits)
    (hsame : p.Resembles ⟨t.describe? name, before⟩) (hj₀ : p.toJson.Gives j₀)
    (hj : (Place.mk (t.describe? name) now).toJson.Gives j)
    (hrun : runEdits edits (j₀.unlessNull.map Json.content) = some part') :
    prunedPart part' = prunedPart (j.unlessNull.map Json.content) := by
  by_cases hmem : front ++ r ∈ paths
  · have hdetermined := hfaithful.determined [] (by simpa using hreached)
    rw [eq_of_changed hantichain hmem hdetermined hedits hj hrun]
  have huncovered := hreached.uncovered hmem
  have hnothing : before = none ∨ before = some .null → j₀.unlessNull.map Json.content = none := by
    intro hmissing
    obtain rfl := hsame.eq_of_noParts fun v hv => by
      rcases hmissing with rfl | rfl <;> cases hv
      rfl
    rw [Place.eq_null_of_missing hmissing hj₀]
    rfl
  cases hopened with
  | same =>
    have hnew := hrewrites edits _ part' j hrecorded hreached hfaithful hold hnow hedits
      (.form hsame hj₀ j₀.getD_unlessNull) hj hrun
    exact prunedPart_congr (by rw [hnew, j.getD_unlessNull])
  | list hmissing hf hkind =>
    rw [hnothing hmissing] at hrun
    cases htracks with
    | covered _ _ hcovered => exact absurd hcovered (hrecorded.not_covered huncovered)
    | leaf hleaf _ => exact absurd hleaf id
    | @list _ _ _ items hlength hmarks _ =>
      -- The list is still empty, and no changed path leads into it.
      obtain rfl : items = [] := List.length_eq_zero_iff.mp hlength
      have hnone : ∀ q, front ++ r ++ q ∉ paths := by
        intro q hq
        rcases hrecorded.source q hq with hm | ⟨v, hv, hn⟩
        · obtain ⟨i, hi, -⟩ := hmarks _ hm (List.prefix_append r q)
          cases hi
        · cases hv
          cases hn with
          | item hv _ => simp at hv
      rw [eq_of_unchanged hnone hedits hrun, prunedPart_none]
      obtain ⟨js, hlengthJs, -, hform⟩ := Place.gives_list hj
      obtain rfl : js = [] := List.length_eq_zero_iff.mp hlengthJs
      rw [hf, Option.bind_some, Field.geometryType?_eq_none hkind] at hform
      subst hform
      exact (prunedPart_blank (v := array []) (by simp [Content.pruned, Blank])).symm
  | dict hmissing =>
    rw [hnothing hmissing] at hrun
    obtain ⟨part'', hrun'', hsame⟩ := runEdits_missing (hedits.ne_nil hmem) hrun
    have hnew := hrewrites edits _ part'' j hrecorded hreached
      (hfaithful.of_no_document fun q doc => Place.follow_empty_dict _ q doc)
      (fun v hv => by cases hv; exact ⟨List.nodup_nil, trivial⟩) hnow hedits (.opened _) hj hrun''
    rw [hsame]
    exact prunedPart_congr (by rw [hnew, j.getD_unlessNull])

/-! ### Documents -/

/-- An attribute is found under its name, and stored under its storage name. -/
theorem Place.enter_attribute (f : Option Field) (doc : Document) (name : String) :
    (Place.mk f (some (.document doc))).enter name =
      (Place.inDocument doc name, doc.storedName name) :=
  rfl

section

variable {paths : List (List String)} {front r : List String} {d : DirtyPaths} {f : Option Field}
  {old doc : Document} {opened : String → Option Value}

/-- Documents of one type store an attribute under one name. -/
theorem storedName_congr (htype : doc.type = old.type) (name : String) :
    doc.storedName name = old.storedName name := by
  simp only [Document.storedName, Place.inDocument, Place.storageName, htype]

/-- What a document keeps of the attributes that it had, and of the marks in them: this much of its
promise is used for the document as a whole. -/
structure KeepsAttributes (old doc : Document) (opened : String → Option Value) : Prop where
  type : doc.type = old.type
  defaults : old.LacksNoDefault
  marks : ∀ m ∈ doc.dirty.segments,
    ∃ name, IsAttributeName name ∧ [name] <+: m ∧ (Entries.get? doc.values name).isSome
  starts : ∀ name, IsAttributeName name →
    Opened doc.type name (Entries.get? old.values name) (opened name)
  attributes : ∀ name, IsAttributeName name →
    Tracks doc.dirty [name] (opened name) (Entries.get? doc.values name)
  other : ∀ name, ¬ IsAttributeName name →
    Untouched (Entries.get? old.values name) (Entries.get? doc.values name)

namespace KeepsAttributes

/-- A missing attribute was missing before. -/
theorem missing (h : KeepsAttributes old doc opened) {name : String}
    (hnone : Entries.get? doc.values name = none) : Entries.get? old.values name = none := by
  by_cases hname : IsAttributeName name
  · have htracks := h.attributes name hname
    have hopened := h.starts name hname
    rw [hnone] at htracks
    generalize opened name = o at htracks hopened
    cases htracks with
    | covered _ _ hcovered =>
      obtain ⟨m, hm, hprefix⟩ := hcovered
      obtain ⟨other, -, hother, hsome⟩ := h.marks m hm
      have hsame : other = name := eq_of_prefix_concat (r := []) (hother.trans hprefix)
        (List.prefix_refl _)
      rw [hsame, hnone] at hsome
      cases hsome
    | absent _ =>
      generalize hvalue : Entries.get? old.values name = before at hopened
      cases hopened with
      | same => rfl
  · rw [← (h.other name hname).1]
    exact hnone

/-- The document has the attributes that it had. -/
theorem hasAttribute (h : KeepsAttributes old doc opened) {name : String}
    (hname : old.HasAttribute name) : doc.HasAttribute name := by
  rcases hname with hvalue | hfield
  · refine .inl ?_
    rw [Option.isSome_iff_ne_none] at hvalue ⊢
    exact fun hnone => hvalue (h.missing hnone)
  · refine .inr ?_
    rwa [h.type]

/-- No attribute waits for a default that was not waited for before. -/
theorem lacksNoDefault (h : KeepsAttributes old doc opened) : doc.LacksNoDefault := by
  intro name g hg hnone
  rw [h.type] at hg
  exact h.defaults name g hg (h.missing hnone)

/-- The document stored no two attributes under one name, if it does not now. -/
theorem storedApart (h : KeepsAttributes old doc opened) (hapart : doc.StoredApart)
    (hold : old.Representable) : old.StoredApart := by
  refine ⟨h.type ▸ hapart.type, hold.values.1, fun a b ha hb hab => ?_, fun hclass name hname => ?_⟩
  · rw [← storedName_congr h.type, ← storedName_congr h.type] at hab
    exact hapart.injective a b (h.hasAttribute ha) (h.hasAttribute hb) hab
  · rw [← storedName_congr h.type]
    exact hapart.apartFromClass (h.type ▸ hclass) name (h.hasAttribute hname)

/-- Nothing is marked in attributes whose names are not segments. -/
theorem unmarked (h : KeepsAttributes old doc opened) {name : String} {v : Value}
    (hname : ¬ IsAttributeName name) (hv : Entries.get? doc.values name = some v) :
    v.unmarked = v := by
  obtain ⟨hsame, hunmarked⟩ := h.other name hname
  exact hunmarked v (hsame ▸ hv)

/-- A changed path below the document begins with an attribute that has a value. -/
theorem begins (h : KeepsAttributes old doc opened) (hnothing : d.NothingAt r)
    (hrecorded : Recorded paths front r d ⟨f, some (.document doc)⟩) (hnow : doc.Representable)
    {s : String} {rest : List String} (hs : front ++ r ++ s :: rest ∈ paths) :
    IsAttributeName s ∧ doc.HasAttribute s := by
  rcases hrecorded.source _ hs with hm | ⟨v, hv, hn⟩
  · exact absurd (List.prefix_append r _) (hnothing _ hm)
  · cases hv
    generalize hpath : s :: rest = path at hn
    cases hn with
    | own _ hm =>
      subst hpath
      obtain ⟨name, hname, hprefix, hsome⟩ := h.marks _ hm
      obtain rfl : name = s := (List.cons_prefix_cons.mp hprefix).1
      exact ⟨hname, .inl hsome⟩
    | @inside _ _ _ name v q _ _ hv hn =>
      have hget := Entries.get?_of_mem hnow.values.1 hv
      by_cases hname : IsAttributeName name
      · rw [dottedSegments_of_isSegment hname.2] at hpath
        obtain rfl : s = name := (List.cons.inj hpath).1
        exact ⟨hname, .inl (by rw [hget]; rfl)⟩
      · rw [← h.unmarked hname hget] at hn
        exact absurd hn (Value.not_nested_unmarked v)

end KeepsAttributes

/-- The old stored form of an attribute of the document as it is now. -/
theorem KeepsAttributes.stored (h : KeepsAttributes old doc opened) (hapart : doc.StoredApart)
    {o₀ : Object} (hstores : old.StoredUpToMarks o₀) {name : String}
    (hname : doc.HasAttribute name) :
    ∃ (p : Place) (j₀ : Json), p.Resembles (Place.inDocument old name) ∧ p.toJson.Gives j₀ ∧
      o₀.get? (doc.storedName name) = j₀.unlessNull := by
  obtain ⟨old', hsame, hstores⟩ := hstores
  by_cases hold : old.HasAttribute name
  · obtain ⟨j₀, hj₀, hget⟩ := hstores.attributes name (hsame.hasAttribute.mpr hold)
    refine ⟨_, j₀, hsame.inDocument name, hj₀, ?_⟩
    rw [storedName_congr h.type, ← hsame.storedName, hget]
  · -- An attribute that is new has nothing stored under its name.
    have hnone : Entries.get? old.values name = none := by
      rw [← Option.not_isSome_iff_eq_none]
      exact fun hsome => hold (.inl hsome)
    refine ⟨_, .null, .refl _, ?_, ?_⟩
    · simp only [Place.inDocument, hnone]
      exact gives_pure.mpr rfl
    · rw [hstores.other _ fun other hother heq => ?_, if_neg]
      · rfl
      · rintro ⟨hclass, hkey⟩
        exact hapart.apartFromClass (h.type ▸ hsame.type ▸ hclass) name hname hkey
      · rw [hsame.storedName, ← storedName_congr h.type] at heq
        have hother' := hsame.hasAttribute.mp hother
        have hequal := hapart.injective other name (h.hasAttribute hother') hname heq
        exact hold (hequal ▸ hother')

/-- What the old stored form has beside the attributes. -/
theorem KeepsAttributes.stored_other (h : KeepsAttributes old doc opened) {o₀ : Object}
    (hstores : old.StoredUpToMarks o₀) {key : String}
    (hkey : ∀ name, doc.HasAttribute name → doc.storedName name ≠ key) :
    o₀.get? key =
      if doc.type.isPolymorphic = true ∧ key = classKey then some (.string doc.type.className)
      else none := by
  obtain ⟨old', hsame, hstores⟩ := hstores
  rw [hstores.other key fun name hname => ?_, hsame.type, h.type]
  rw [hsame.storedName, ← storedName_congr h.type]
  exact hkey name (h.hasAttribute (hsame.hasAttribute.mp hname))

/-- **A document is rewritten attribute by attribute.** -/
theorem rewrites_document (hantichain : ∀ k ∈ paths, ∀ k' ∈ paths, k <+: k' → k = k')
    (h : KeepsAttributes old doc opened) (hnothing : d.NothingAt r)
    (hrewrites : ∀ name, IsAttributeName name → ∀ front g,
      Rewrites paths front [name] doc.dirty ⟨g, opened name⟩ ⟨g, Entries.get? doc.values name⟩)
    (huncovered : Uncovered paths (front ++ r))
    (hrecorded : Recorded paths front r d ⟨f, some (.document doc)⟩)
    (hreference : ∀ g, f = some g → g.kind.isReference = false)
    (hfaithful : Faithful paths (front ++ r) ⟨f, some (.document old)⟩ ⟨f, some (.document doc)⟩)
    (hold : old.Representable) (hnow : doc.Representable)
    {edits : List (List String × Edit)}
    (hedits : EditsFor paths (front ++ r) ⟨f, some (.document doc)⟩ edits) {o₀ o : Object}
    (hstores₀ : old.StoredUpToMarks o₀) (hstores : doc.Stores o) {part' : Option Content}
    (hrun : runEdits edits (some o₀.content) = some part') :
    (part'.getD .null).pruned = o.content.pruned := by
  have hmem : front ++ r ∉ paths := fun h => huncovered _ h (List.prefix_refl _)
  have hapart : doc.StoredApart := hfaithful.apart [] doc (by simpa using huncovered) rfl
  have hbegins : ∀ s rest, front ++ r ++ s :: rest ∈ paths →
      IsAttributeName s ∧ doc.HasAttribute s := fun s rest hs => h.begins hnothing hrecorded hnow hs
  obtain ⟨entry', rfl, hrunKeys⟩ := runEdits_object (hedits.ne_nil hmem) hrun
  refine pruned_object fun key => ?_
  have hrunKey := hrunKeys key
  by_cases hkey : ∃ name, doc.HasAttribute name ∧ doc.storedName name = key
  · obtain ⟨name, hname, rfl⟩ := hkey
    obtain ⟨j, hj, hget⟩ := hstores.attributes name hname
    obtain ⟨p, j₀, hsame, hj₀, hget₀⟩ := h.stored hapart hstores₀ hname
    rw [Entries.get?_content, hget₀] at hrunKey
    rw [Entries.get?_content, hget]
    have hreached' := huncovered.reached name
    have hfaithful' := hfaithful.enter name
    have hold' : Place.inDocument old name =
        ⟨doc.type.describe? name, Entries.get? old.values name⟩ := by
      simp only [Place.inDocument, h.type]
    rw [Place.enter_attribute, Place.enter_attribute] at hfaithful'
    rw [hold'] at hsame hfaithful'
    by_cases hattribute : IsAttributeName name
    · have hedits' := hedits.enter hmem name fun t rest ht hsame =>
        hapart.injective t name (hbegins t rest ht).2 hname hsame
      have hinside := hrecorded.inside hreference huncovered hnothing hnow.values.1
        (fun k v hk hv => h.unmarked (fun hk' => hk hk'.2) hv) hattribute.2
      exact prunedPart_of_opened hantichain (h.starts name hattribute)
        (h.attributes name hattribute) (hrewrites name hattribute _ _) hinside hreached' hfaithful'
        (hold.values.2 name) (hnow.values.2 name) hedits' hsame hj₀ hj hrunKey
    · -- An attribute whose name is not a segment has kept its value.
      have hnil := editsBelow_eq_nil hedits hmem (doc.storedName name)
        fun t rest ht hsame => by
          have hbegin := hbegins t rest ht
          have heq := hapart.injective t name hbegin.2 hname hsame
          exact hattribute (heq ▸ hbegin.1)
      rw [hnil] at hrunKey
      have hdetermined := hfaithful.determined [name] hreached'
      have hvalue := (h.other name hattribute).1
      rw [← hvalue] at hsame
      obtain rfl := hsame.eq_of_determined hdetermined hj₀ hj
      rw [← Option.some.inj hrunKey]
  · have hnot : ∀ name, doc.HasAttribute name → doc.storedName name ≠ key :=
      fun name hname heq => hkey ⟨name, hname, heq⟩
    have hnil := editsBelow_eq_nil hedits hmem key
      fun t rest ht => hnot t (hbegins t rest ht).2
    rw [hnil, Entries.get?_content, h.stored_other hstores₀ hnot] at hrunKey
    rw [← Option.some.inj hrunKey, Entries.get?_content, hstores.other key hnot]

end

/-- A document that is not stored by its key is not in a field of references. -/
theorem Place.not_reference_of_document {f : Option Field} {doc : Document}
    (h : ¬ Opaque ⟨f, some (.document doc)⟩) : ∀ g, f = some g → g.kind.isReference = false := by
  rintro g rfl
  rw [← Bool.not_eq_true]
  exact fun hreference => h (.reference hreference)

/-! ### Any value -/

/-- **Edits rewrite what is stored for a place** that keeps its promise. -/
theorem Tracks.rewrites {paths : List (List String)}
    (hantichain : ∀ k ∈ paths, ∀ k' ∈ paths, k <+: k' → k = k')
    (hsegments : ∀ k ∈ paths, ∀ s ∈ k, IsSegment s) {d : DirtyPaths} {r : List String}
    {before now : Option Value} (h : Tracks d r before now) (front : List String)
    (f : Option Field) : Rewrites paths front r d ⟨f, before⟩ ⟨f, now⟩ := by
  induction h generalizing front f with
  | covered before now hcovered =>
    exact .of_uncovered hantichain fun huncovered => rewrites_covered hcovered huncovered
  | absent hnothing =>
    refine .of_uncovered hantichain fun _ => rewrites_same hnothing (fun v q hv => ?_) ?_
    · cases hv
    · nofun
  | @leaf d r v hleaf hnothing =>
    refine .of_uncovered hantichain fun _ => rewrites_same hnothing (fun w q hw hn => ?_) ?_
    · obtain rfl : v = w := Option.some.inj hw
      cases hn <;> exact hleaf
    · intro heq
      obtain rfl := Option.some.inj heq
      exact hleaf
  | list hlength hmarks _ ih =>
    exact .of_uncovered hantichain fun huncovered =>
      rewrites_list huncovered hlength hmarks fun i hi g => ih i hi front g
  | dict _ hother ih =>
    exact .of_uncovered hantichain fun huncovered =>
      rewrites_dict hsegments huncovered (fun key hkey g => ih key hkey front g) hother
  | @document d r old doc hnothing htype hdefaults hmarks opened hopened hattributes hother ih =>
    refine .of_uncovered hantichain fun huncovered => ?_
    intro edits part part' j hrecorded hreached hfaithful hold hnow hedits hstored hj hrun
    have hkeeps : KeepsAttributes old doc opened :=
      ⟨htype, hdefaults, hmarks, hopened, hattributes, hother⟩
    have hmem : front ++ r ∉ paths := fun h => huncovered _ h (List.prefix_refl _)
    cases hstored with
    | @form _ q _ j₀ hsame h₀ hpart =>
    by_cases hclosed : Place.Opaque ⟨f, some (.document doc)⟩
    · -- No changed path leads into a document that is stored by its key.
      have hnone : ∀ q, front ++ r ++ q ∉ paths := by
        intro q hq
        cases q with
        | nil => exact hmem (by simpa using hq)
        | cons s rest => exact (hfaithful.transparent [] s rest (by simpa using hq)).1 hclosed
      have hkept := hfaithful.keys [] old doc (by simpa using huncovered) hclosed rfl rfl q j₀ j hsame
        h₀ hj
      rw [eq_of_unchanged hnone hedits hrun, hpart, hkept]
    · have hreference := Place.not_reference_of_document hclosed
      obtain ⟨old', rfl, hunmarked⟩ := hsame.document
      have hclosed₀ : ¬ Place.Opaque ⟨f, some (.document old')⟩ := by
        intro h
        cases h with
        | reference hkind => exact absurd hkind (by rw [hreference _ rfl]; exact Bool.false_ne_true)
      obtain ⟨patch₀, hpatch₀, rfl⟩ := Place.gives_document h₀ hclosed₀
      obtain ⟨patch, hpatch, rfl⟩ := Place.gives_document hj hclosed
      have hapart := hfaithful.apart [] doc (by simpa using huncovered) rfl
      have hrepresentable := hold _ rfl
      have hresembles := Document.Resembles.of_unmarked_eq hunmarked
      have hstores₀ := Document.stores_of_fullPatch hpatch₀ (hresembles.lacksNoDefault hdefaults)
        (hresembles.storedApart (hkeeps.storedApart hapart hrepresentable))
      have hstores := Document.stores_of_fullPatch hpatch hkeeps.lacksNoDefault hapart
      obtain rfl : part = some (Object.content patch₀.sets) := by
        cases part with
        | none => cases hpart
        | some v => exact congrArg some hpart
      exact rewrites_document hantichain hkeeps hnothing
        (fun name hname front g => ih name hname front g) huncovered hrecorded hreference hfaithful
        hrepresentable (hnow _ rfl) hedits ⟨old', hresembles, hstores₀⟩ hstores hrun

end DocumentMapper
