import DocumentMapper.Proofs.ChangeTracking
import DocumentMapper.Proofs.ContainerRules

/-!
# Rules that the patch of what changed does not see

Storing a document as a whole meets the rules of every field. The patch of what changed meets those
of the places that it stores. After tracked calls on a document that could be stored, what it does
not store is what it was, as far as values without parts go: nothing can get past their rules.

But a list, a dict or an embedded document also changes with its parts, and its own rules are not
met when a part of it is stored. The same goes for a document that is stored by its key, and for
what stands under a name with points in it, where no changed path leads. If these keep their rules,
the whole document can be stored, and only then.

## Main results

* `Followed.succeeds`: what is followed can be stored if it could be stored before;
* `Document.Worked.toStorage_succeeds_iff`: where the patch can be stored, the whole can exactly if
  the rules are kept that the patch does not see;
* `misnamedTally_not_storable`: a key that the patch does not see.
-/

namespace DocumentMapper

open Text Drawing

/-! ### What the patch does not see -/

/-- No changed path leads to a place or to something above it, and it does not lie inside a document
that is stored by its key. -/
structure Document.Unseen (doc : Document) (q : List String) : Prop where
  uncovered : ¬ doc.changedPaths.Covered q
  entered : ∀ above s rest, q = above ++ s :: rest → ¬ (doc.place.follow above).1.StoredByKey

/-- The rules that the patch of what changed does not see are kept:

* those of fields for the lists, dicts and documents that they hold;
* documents that are stored by their keys can be stored;
* what stands under a name that is not a segment can be stored. -/
structure Document.KeepsUnseenRules (doc : Document) : Prop where
  admitted : ∀ q, doc.Unseen q → ∀ f v, (doc.place.follow q).1 = ⟨some f, some v⟩ →
    v.hasParts = true → f.Admits v
  keyed : ∀ q, doc.Unseen q → (doc.place.follow q).1.StoredByKey →
    ∃ j, (doc.place.follow q).1.toJson.Gives j
  dotted : ∀ q name, doc.Unseen (q ++ [name]) → ¬ IsSegment name →
    ∃ j, (doc.place.follow (q ++ [name])).1.toJson.Gives j

/-- One segment further. -/
theorem Place.follow_concat (p : Place) (q : List String) (s : String) :
    (p.follow (q ++ [s])).1 = ((p.follow q).1.enter s).1 := by
  induction q generalizing p with
  | nil => rfl
  | cons t q ih => exact ih (p.enter t).1

/-- A list or dict is not stored by a key. -/
theorem Place.not_storedByKey {f : Option Field} {v : Value} (hv : v.isContainer = true) :
    ¬ Place.StoredByKey ⟨f, some v⟩ := by
  rintro ⟨g, doc, hplace, -⟩
  cases hplace
  cases hv

/-- What is known to be stored from one supply, is so from every supply. -/
theorem Place.succeeds_of_steady {p : Place} (hp : ∀ v, p.value = some v → v.Steady)
    (h : ∃ j, p.toJson.Gives j) : p.toJson.Succeeds := by
  obtain ⟨_, hj⟩ := h
  exact (Place.steady_toJson hp).succeeds hj

/-! ### What the whole stored form meets -/

/-- What is stored is stored place by place, up to the documents that are stored by their keys. -/
theorem Place.gives_follow {p : Place} {j : Json} (h : p.toJson.Gives j) {q : List String}
    (hentered : ∀ above s rest, q = above ++ s :: rest → ¬ (p.follow above).1.StoredByKey) :
    ∃ j, (p.follow q).1.toJson.Gives j := by
  induction q generalizing p j with
  | nil => exact ⟨j, h⟩
  | cons s q ih =>
    obtain ⟨j', hj'⟩ := gives_enter h (hentered [] s q rfl) s
    refine ih hj' fun above t rest hq => ?_
    exact hentered (s :: above) t rest (by rw [hq]; rfl)

namespace Document

variable {doc : Document}

/-- A document that is stored is stored at its own place. -/
theorem gives_place {full : Object} (h : doc.toStorage.Gives full) :
    ∃ j, doc.place.toJson.Gives j := by
  obtain ⟨patch, ⟨s, t, hrun⟩, -⟩ := Gives.of_bind h
  exact ⟨_, s, t, runFrom_bind_eq_ok.mpr ⟨patch, t, hrun, rfl⟩⟩

/-- **A document that is stored keeps the rules that a patch does not see.** -/
theorem keepsUnseenRules_of_gives {full : Object} (h : doc.toStorage.Gives full) :
    doc.KeepsUnseenRules := by
  obtain ⟨j, hj⟩ := gives_place h
  have hgives : ∀ q, doc.Unseen q → ∃ j, (doc.place.follow q).1.toJson.Gives j :=
    fun q hq => Place.gives_follow hj hq.entered
  refine ⟨fun q hq f v hplace hparts => ?_, fun q hq _ => hgives q hq,
    fun q name hq _ => hgives _ hq⟩
  obtain ⟨j', hj'⟩ := hgives q hq
  rw [hplace] at hj'
  cases v <;> cases hparts
  case list => exact (Field.gives_encode_list hj').2
  case dict => exact (Field.gives_encode_dict hj').2
  case document => exact Field.admits_document hj'

end Document

/-! ### Seats and fields -/

/-- A seat says what the field of a place says. -/
structure Seat.Describes (seat : Seat) (f : Option Field) : Prop where
  referenced : seat.referenced = true → ∃ g, f = some g ∧ g.kind.isReference = true
  list : seat.opensList = true → ∃ g, f = some g ∧ g.TakesLists
  dict : seat.opensDict = true → ∃ g, f = some g ∧ g.TakesDicts

namespace Seat

theorem describes_attribute (t : DocumentType) (name : String) :
    (t.seat name).Describes (t.describe? name) := by
  refine ⟨fun h => ?_, fun h => ?_, fun h => ?_⟩
  · obtain ⟨g, hg, hkind⟩ := (Option.any_eq_true _ _).mp h
    exact ⟨g, by simp [DocumentType.describe?, hg], hkind⟩
  · obtain ⟨g, hg, hkind⟩ := (Option.any_eq_true _ _).mp h
    exact ⟨g, hg, Field.takesLists_of_opens hkind⟩
  · obtain ⟨g, hg, hkind⟩ := (Option.any_eq_true _ _).mp h
    exact ⟨g, hg, Field.takesDicts_of_opens hkind⟩

/-- Nothing is said of the parts of a value, unless it stands in a field of references. -/
theorem Describes.part {seat : Seat} {f : Option Field} (h : seat.Describes f)
    (hf : ∀ g, f = some g → g.kind.isReference = false) (part : Option Field) :
    seat.part.Describes part := by
  refine ⟨fun hreferenced => ?_, nofun, nofun⟩
  obtain ⟨g, hg, hkind⟩ := h.referenced hreferenced
  rw [hf g hg] at hkind
  cases hkind

/-- Where a value counts as having been a list, lists are taken. -/
theorem Describes.takesLists {seat : Seat} {f : Option Field} (h : seat.Describes f)
    {before : Option Value} {olds : List Value} (hstart : seat.Starts before (.list olds))
    {j : Json} (hbefore : (Place.mk f before).toJson.Gives j) : ∀ g, f = some g → g.TakesLists := by
  rintro g rfl
  cases hstart with
  | same => exact (Field.gives_encode_list hbefore).1
  | list _ hopens =>
    obtain ⟨g', hg', htakes⟩ := h.list hopens
    rwa [Option.some.inj hg']

/-- Where a value counts as having been a dict, dicts are taken. -/
theorem Describes.takesDicts {seat : Seat} {f : Option Field} (h : seat.Describes f)
    {before : Option Value} {olds : List (String × Value)}
    (hstart : seat.Starts before (.dict olds)) {j : Json}
    (hbefore : (Place.mk f before).toJson.Gives j) : ∀ g, f = some g → g.TakesDicts := by
  rintro g rfl
  cases hstart with
  | same => exact (Field.gives_encode_dict hbefore).1
  | dict _ hopens =>
    obtain ⟨g', hg', htakes⟩ := h.dict hopens
    rwa [Option.some.inj hg']

end Seat

/-! ### Positions in a document -/

/-- What stands at a position `r` of a document inside another one, to which `front` leads and which
has recorded `d`. What is recorded there, or reported from inside the value, is covered by the
changed paths of the whole, and no changed path leads to something above the position. -/
structure StandsAt (whole : Document) (front r : List String) (d : DirtyPaths) (seat : Seat)
    (f : Option Field) (now : Option Value) : Prop where
  place : (whole.place.follow (front ++ r)).1 = ⟨f, now⟩
  reached : Reached whole.changedPaths.segments (front ++ r)
  entered : ∀ above s rest, front ++ r = above ++ s :: rest →
    ¬ (whole.place.follow above).1.StoredByKey
  described : seat.Describes f
  marks : ∀ m ∈ d.segments, whole.changedPaths.Covered (front ++ m)
  inside : seat.referenced = false → ∀ v q, now = some v → Reported d r v q →
    whole.changedPaths.Covered (front ++ r ++ q)
  steady : ∀ v, now = some v → v.Steady
  representable : RepresentableAt now

namespace StandsAt

variable {whole : Document} {front r : List String} {d : DirtyPaths} {seat : Seat}
  {f : Option Field} {now : Option Value}

/-- An uncovered position is unseen. -/
theorem unseen (h : StandsAt whole front r d seat f now)
    (hposition : Uncovered whole.changedPaths.segments (front ++ r)) : whole.Unseen (front ++ r) :=
  ⟨fun ⟨m, hm, hbegins⟩ => hposition m hm hbegins, h.entered⟩

/-- An uncovered position is not covered by what the document around it has recorded. -/
theorem uncovered (h : StandsAt whole front r d seat f now)
    (hposition : Uncovered whole.changedPaths.segments (front ++ r)) : ¬ d.Covered r := by
  rintro ⟨m, hm, hbegins⟩
  obtain ⟨k, hk, hkm⟩ := h.marks m hm
  exact hposition k hk (hkm.trans ((List.prefix_append_right_inj front).mpr hbegins))

/-- What lies one segment further is not inside a document that is stored by its key, unless this is
one. -/
theorem entered_below (h : StandsAt whole front r d seat f now)
    (hkey : ¬ Place.StoredByKey ⟨f, now⟩) (name : String) :
    ∀ above s rest, front ++ r ++ [name] = above ++ s :: rest →
      ¬ (whole.place.follow above).1.StoredByKey := by
  intro above s rest heq
  rcases List.eq_nil_or_concat rest with rfl | ⟨rest', last, rfl⟩
  · obtain ⟨rfl, -⟩ := List.append_inj' heq rfl
    rwa [h.place]
  · have heq' : front ++ r ++ [name] = above ++ s :: rest' ++ [last] := by simpa using heq
    obtain ⟨hfront, -⟩ := List.append_inj' heq' rfl
    exact h.entered above s rest' hfront

/-- The item of a list. -/
theorem item {items : List Value} (h : StandsAt whole front r d seat f (some (.list items)))
    (hposition : Uncovered whole.changedPaths.segments (front ++ r))
    (hf : ∀ g, f = some g → g.kind.isReference = false) {i : Nat} (hi : i < items.length) :
    StandsAt whole front (r ++ [toString i]) d seat.part (f.bind (·.kind.element?)) items[i]? := by
  obtain ⟨hshort, hrepresentable⟩ := h.representable _ rfl
  have hkey : ¬ Place.StoredByKey ⟨f, some (.list items)⟩ := Place.not_storedByKey rfl
  refine ⟨?_, ?_, ?_, h.described.part hf _, h.marks, fun hreferenced v q hv hq => ?_,
    fun v hv => steady_item (h.steady _ rfl) hv, representableAt_item hrepresentable i⟩
  · rw [← List.append_assoc, Place.follow_concat, h.place, Place.enter_item (by omega)]
  · rw [← List.append_assoc]
    exact hposition.reached _
  · rw [← List.append_assoc]
    exact h.entered_below hkey _
  · simpa using h.inside hreferenced _ _ rfl (.item hv hq)

/-- The value of a key that is a segment. -/
theorem entry {entries : List (String × Value)}
    (h : StandsAt whole front r d seat f (some (.dict entries)))
    (hposition : Uncovered whole.changedPaths.segments (front ++ r))
    (hf : ∀ g, f = some g → g.kind.isReference = false) {key : String} (hkey : IsSegment key) :
    StandsAt whole front (r ++ dottedSegments key) d seat.part
      ((f.bind (·.kind.element?)).map (·.renamed key)) (Entries.get? entries key) := by
  obtain ⟨-, hrepresentable⟩ := h.representable _ rfl
  have hplace : ¬ Place.StoredByKey ⟨f, some (.dict entries)⟩ := Place.not_storedByKey rfl
  refine ⟨?_, ?_, ?_, h.described.part hf _, h.marks, fun hreferenced v q hv hq => ?_,
    fun v hv => steady_entry (h.steady _ rfl) hv, representableAt_entry hrepresentable key⟩
  · rw [dottedSegments_of_isSegment hkey, ← List.append_assoc, Place.follow_concat, h.place,
      Place.enter_entry]
  · rw [dottedSegments_of_isSegment hkey, ← List.append_assoc]
    exact hposition.reached _
  · rw [dottedSegments_of_isSegment hkey, ← List.append_assoc]
    exact h.entered_below hplace _
  · simpa using h.inside hreferenced _ _ rfl (.entry hv hq)

/-- The attribute of an embedded document, if its name is a segment. -/
theorem inAttribute {doc : Document} (h : StandsAt whole front r d seat f (some (.document doc)))
    (hposition : Uncovered whole.changedPaths.segments (front ++ r))
    (hkey : ¬ Place.StoredByKey ⟨f, some (.document doc)⟩) {name : String}
    (hname : IsSegment name) :
    StandsAt whole (front ++ r) (dottedSegments name) doc.dirty (doc.type.seat name)
      (doc.type.describe? name) (Entries.get? doc.values name) := by
  have hdoc : doc.Representable := h.representable _ rfl
  have hsteady : doc.Steady := h.steady _ rfl
  have huncovered := h.uncovered hposition
  -- A document in a field of references would be stored by its key.
  have hseat : seat.referenced = false := by
    rw [← Bool.not_eq_true]
    intro hreferenced
    obtain ⟨g, rfl, hkind⟩ := h.described.referenced hreferenced
    exact hkey ⟨g, doc, rfl, hkind⟩
  refine ⟨?_, ?_, ?_, Seat.describes_attribute _ _, fun m hm => ?_, fun hreferenced v q hv hq => ?_,
    fun v hv => hsteady.values hv, hdoc.values.2 name⟩
  · rw [dottedSegments_of_isSegment hname, Place.follow_concat, h.place]
    rfl
  · rw [dottedSegments_of_isSegment hname]
    exact hposition.reached _
  · rw [dottedSegments_of_isSegment hname]
    exact h.entered_below hkey _
  · exact h.inside hseat _ _ rfl (.own huncovered hm)
  · simpa using h.inside hseat _ _ rfl (.inside huncovered hreferenced hv hq)

end StandsAt

/-! ### Followed values can be stored -/

namespace StandsAt

variable {whole : Document} {front r : List String} {d : DirtyPaths} {seat : Seat}
  {f : Option Field} {now before : Option Value}

/-- Where a changed path leads, the patch has stored what lives there. -/
theorem succeeds_of_unchanged
    (hchanged : ∀ q ∈ whole.changedPaths.segments, ∃ j, (whole.place.follow q).1.toJson.Gives j)
    (h : StandsAt whole front r d seat f now)
    (hunchanged : Uncovered whole.changedPaths.segments (front ++ r) →
      (Place.mk f now).toJson.Succeeds) : (Place.mk f now).toJson.Succeeds := by
  by_cases hmem : front ++ r ∈ whole.changedPaths.segments
  · have hj := hchanged _ hmem
    rw [h.place] at hj
    exact Place.succeeds_of_steady h.steady hj
  · exact hunchanged (h.reached.uncovered hmem)

variable (hrules : whole.KeepsUnseenRules)

include hrules

/-- What stands under a name that is not a segment can be stored. -/
theorem gives_dotted (h : StandsAt whole front r d seat f now)
    (hposition : Uncovered whole.changedPaths.segments (front ++ r))
    (hkey : ¬ Place.StoredByKey ⟨f, now⟩) {name : String} (hname : ¬ IsSegment name) :
    ∃ j, ((Place.mk f now).enter name).1.toJson.Gives j := by
  have hj := hrules.dotted (front ++ r) name ⟨?_, h.entered_below hkey name⟩ hname
  · rwa [Place.follow_concat, h.place] at hj
  · rintro ⟨m, hm, hbegins⟩
    rcases List.prefix_concat_iff.mp hbegins with rfl | hbegins
    · exact hname (DirtyPaths.isSegment_of_mem hm name (by simp))
    · exact hposition m hm hbegins

/-- What has parts keeps the rules of its field. -/
theorem admits {v : Value} (h : StandsAt whole front r d seat f (some v))
    (hposition : Uncovered whole.changedPaths.segments (front ++ r)) (hv : v.hasParts = true) :
    ∀ g, f = some g → g.Admits v := fun g hg =>
  hrules.admitted _ (h.unseen hposition) g v (by rw [h.place, hg]) hv

/-- **A list can be stored if its items can**, which are followed from the items of the list that it
was, or from nothing. -/
theorem succeeds_list {olds items : List Value}
    (h : StandsAt whole front r d seat f (some (.list items)))
    (hposition : Uncovered whole.changedPaths.segments (front ++ r))
    (hstart : seat.Starts before (.list olds)) (hbefore : ∃ j, (Place.mk f before).toJson.Gives j)
    (hitems : ∀ (i : Nat) {front : List String} {f : Option Field},
      StandsAt whole front (r ++ [toString i]) d seat.part f items[i]? →
      (∃ j, (Place.mk f olds[i]?).toJson.Gives j) → (Place.mk f items[i]?).toJson.Succeeds) :
    (Place.mk f (some (.list items))).toJson.Succeeds := by
  obtain ⟨j, hj⟩ := hbefore
  have htakes := h.described.takesLists hstart hj
  refine Place.succeeds_list htakes (h.admits hrules hposition rfl) fun v hv => ?_
  obtain ⟨i, hi⟩ := List.mem_iff_getElem?.mp hv
  have hlt : i < items.length := (List.getElem?_eq_some_iff.mp hi).1
  rw [← hi]
  refine hitems i (h.item hposition (fun g hg => (htakes g hg).isReference) hlt) ?_
  have hnothing : ∃ j, (Place.mk (f.bind (·.kind.element?)) none).toJson.Gives j :=
    ⟨.null, gives_pure.mpr rfl⟩
  cases hstart with
  | list => exact hnothing
  | same =>
    obtain ⟨js, -, holds, -⟩ := Place.gives_list hj
    by_cases hold : i < olds.length
    · rw [List.getElem?_eq_getElem hold]
      exact ⟨_, holds i hold⟩
    · rw [List.getElem?_eq_none (by omega)]
      exact hnothing

/-- **A dict can be stored if its values can**: those of segments, which are followed, and those
under other keys, which the rules say. -/
theorem succeeds_dict {olds entries : List (String × Value)}
    (h : StandsAt whole front r d seat f (some (.dict entries)))
    (hposition : Uncovered whole.changedPaths.segments (front ++ r))
    (hstart : seat.Starts before (.dict olds)) (hbefore : ∃ j, (Place.mk f before).toJson.Gives j)
    (hvalues : ∀ (key : String) {front : List String} {f : Option Field},
      StandsAt whole front (r ++ dottedSegments key) d seat.part f (Entries.get? entries key) →
      (∃ j, (Place.mk f (Entries.get? olds key)).toJson.Gives j) →
      (Place.mk f (Entries.get? entries key)).toJson.Succeeds) :
    (Place.mk f (some (.dict entries))).toJson.Succeeds := by
  obtain ⟨j, hj⟩ := hbefore
  have htakes := h.described.takesDicts hstart hj
  obtain ⟨hnodup, -⟩ := h.representable _ rfl
  refine Place.succeeds_dict htakes (h.admits hrules hposition rfl) fun e he => ?_
  obtain ⟨key, v⟩ := e
  have hv := Entries.get?_of_mem hnodup he
  by_cases hkey : IsSegment key
  · rw [← hv]
    refine hvalues key (h.entry hposition (fun g hg => (htakes g hg).isReference) hkey) ?_
    cases hstart with
    | dict => exact ⟨.null, gives_pure.mpr rfl⟩
    | same =>
      obtain ⟨o, -, holds⟩ := Place.gives_dict hj
      obtain ⟨j', hj', -⟩ := holds.form key
      exact ⟨j', hj'⟩
  · have hj' := h.gives_dotted hrules hposition (Place.not_storedByKey rfl) hkey
    rw [Place.enter_entry, hv] at hj'
    exact Place.succeeds_of_steady
      (fun w hw => steady_entry (h.steady _ rfl) (hv.trans hw)) hj'

/-- **A document can be stored if its attributes can**, unless it is stored by its key, which the
rules say. -/
theorem succeeds_document {old doc : Document}
    (h : StandsAt whole front r d seat f (some (.document doc)))
    (hposition : Uncovered whole.changedPaths.segments (front ++ r)) (htype : doc.type = old.type)
    (hkept : ∀ name, (Entries.get? old.values name).isSome → (Entries.get? doc.values name).isSome)
    (hbefore : ∃ j, (Place.mk f (some (.document old))).toJson.Gives j)
    (hattributes : ∀ (name : String) {front : List String} {f : Option Field},
      StandsAt whole front (dottedSegments name) doc.dirty (doc.type.seat name) f
        (Entries.get? doc.values name) →
      (∃ j, (Place.mk f (Entries.get? old.values name)).toJson.Gives j) →
      (Place.mk f (Entries.get? doc.values name)).toJson.Succeeds) :
    (Place.mk f (some (.document doc))).toJson.Succeeds := by
  obtain ⟨j, hj⟩ := hbefore
  by_cases hkey : Place.StoredByKey ⟨f, some (.document doc)⟩
  · have hj' := hrules.keyed _ (h.unseen hposition) (by rwa [h.place])
    rw [h.place] at hj'
    exact Place.succeeds_of_steady h.steady hj'
  · have hsteady : doc.Steady := h.steady _ rfl
    have hdoc : doc.Representable := h.representable _ rfl
    have hclosed : ¬ Place.Opaque ⟨f, some (.document old)⟩ := by
      intro hclosed
      cases hclosed with
      | reference hf => exact hkey ⟨_, _, rfl, hf⟩
    obtain ⟨patch, hpatch, -⟩ := Place.gives_document hj hclosed
    refine Place.succeeds_document hj htype (h.admits hrules hposition rfl) hkey
      (Document.succeeds_fullPatch hsteady.built hdoc.values.1 (fun name => ?_) fun g hg hnone => ?_)
    · by_cases hname : IsSegment name
      · refine hattributes name (h.inAttribute hposition hkey hname) ?_
        have hattribute := Document.attribute_of_fullPatch hpatch name
        rwa [Place.inDocument, ← htype] at hattribute
      · exact Place.succeeds_of_steady (fun v hv => hsteady.values hv)
          (h.gives_dotted hrules hposition hkey hname)
    · -- What is missing now was missing before.
      have hmissing : Entries.get? old.values g.name = none := by
        rw [← Option.not_isSome_iff_eq_none]
        intro hsome
        have := hkept _ hsome
        simp [hnone] at this
      obtain ⟨j', hj'⟩ := Document.default_of_fullPatch hpatch (htype ▸ hg) hmissing
      exact (hsteady.defaults hg hnone).succeeds hj'

end StandsAt

/-- **What is followed can be stored if it could be stored before**, where the patch of what changed
can be stored and the rules that it does not see are kept. -/
theorem Followed.succeeds {whole : Document} (hrules : whole.KeepsUnseenRules)
    (hchanged : ∀ q ∈ whole.changedPaths.segments, ∃ j, (whole.place.follow q).1.toJson.Gives j)
    {d : DirtyPaths} {r : List String} {seat : Seat} {before now : Option Value}
    (h : Followed d r seat before now) : ∀ {front : List String} {f : Option Field},
    StandsAt whole front r d seat f now → (∃ j, (Place.mk f before).toJson.Gives j) →
    (Place.mk f now).toJson.Succeeds := by
  intro front f hstands hbefore
  refine hstands.succeeds_of_unchanged hchanged fun hposition => ?_
  induction h generalizing front f with
  | covered before now hcovered => exact absurd hcovered (hstands.uncovered hposition)
  | absent => exact .pure _
  | leaf => exact Place.succeeds_of_steady hstands.steady hbefore
  | list hstart _ ih =>
    refine hstands.succeeds_list hrules hposition hstart hbefore fun i _ _ hitem hold => ?_
    exact hitem.succeeds_of_unchanged hchanged (ih i hitem hold)
  | dict hstart _ ih =>
    refine hstands.succeeds_dict hrules hposition hstart hbefore fun key _ _ hvalue hold => ?_
    exact hvalue.succeeds_of_unchanged hchanged (ih key hvalue hold)
  | document htype hkept _ ih =>
    refine hstands.succeeds_document hrules hposition htype hkept hbefore
      fun name _ _ hattribute hold => ?_
    exact hattribute.succeeds_of_unchanged hchanged (ih name hattribute hold)

/-! ### The whole stored form -/

namespace Document

variable {doc doc' : Document}

/-- A document stands at its own place. -/
theorem standsAt_self (hsteady : doc.Steady) (hdoc : doc.Representable)
    (hrecord : "" ∉ doc.dirty.paths) :
    StandsAt doc [] [] .empty .free none (some (.document doc)) where
  place := rfl
  reached := fun _ _ hbegins => List.prefix_nil.mp hbegins
  entered := fun above s rest heq => absurd heq (by simp)
  described := ⟨nofun, nofun, nofun⟩
  marks := fun _ hm => absurd hm List.not_mem_nil
  inside := fun _ _ _ hv hq => covered_of_reported hrecord (Option.some.inj hv ▸ hq)
  steady := fun _ hv => Option.some.inj hv ▸ hsteady
  representable := fun _ hv => Option.some.inj hv ▸ hdoc

/-- What the patch of what changed stores can be stored. -/
theorem changed_of_incrementalPatch {patch : Patch} (h : doc.incrementalPatch.Gives patch) :
    ∀ q ∈ doc.changedPaths.segments, ∃ j, (doc.place.follow q).1.toJson.Gives j := by
  have hpaths : ∀ (paths : List String) (start : Patch), (doc.patchPaths paths start).Gives patch →
      ∀ path ∈ paths, ∃ j, (doc.locate path).1.toJson.Gives j := by
    intro paths
    induction paths with
    | nil => exact fun _ _ _ hpath => absurd hpath List.not_mem_nil
    | cons first rest ih =>
      intro start hstart
      obtain ⟨j, hj, hrest⟩ := Gives.of_bind hstart
      exact List.forall_mem_cons.mpr ⟨⟨j, hj⟩, ih _ hrest⟩
  intro q hq
  obtain ⟨path, hpath, rfl⟩ := DirtyPaths.mem_segments.mp hq
  have hj := hpaths _ _ h path hpath
  rwa [locate_eq] at hj

/-- **After tracked calls the whole document can be stored exactly if the rules are kept that the
patch of what changed does not see**, where the document could be stored before and the patch can be
stored. -/
theorem Worked.toStorage_succeeds_iff (h : doc.Worked doc') (hrecord : "" ∉ doc.dirty.paths)
    (hdoc' : doc'.Representable) (hsteady : doc'.Steady) {full : Object}
    (hfull : doc.toStorage.Gives full) {patch : Patch}
    (hpatch : doc'.incrementalPatch.Gives patch) :
    doc'.toStorage.Succeeds ↔ doc'.KeepsUnseenRules := by
  constructor
  · intro hsucceeds
    obtain ⟨full', hfull'⟩ := hsucceeds.gives
    exact keepsUnseenRules_of_gives hfull'
  · intro hrules
    have hcarries := h.carries
    have hrecord' : "" ∉ doc'.dirty.paths := fun hm => hrecord
      (DirtyPaths.empty_mem_segments_iff.mp
        (hcarries.unnamed (DirtyPaths.empty_mem_segments_iff.mpr hm)))
    have hfollowed := hcarries.followed .empty [] .free _ (doc.followed_self _ _ _)
    have hplace := hfollowed.succeeds hrules (changed_of_incrementalPatch hpatch)
      (standsAt_self hsteady hdoc' hrecord') (gives_place hfull)
    intro s
    obtain ⟨j, t, hrun, -⟩ := hplace s
    obtain ⟨patch', u, hpatch', -⟩ := runFrom_bind_eq_ok.mp hrun
    exact ⟨patch'.sets, u, runFrom_bind_eq_ok.mpr ⟨patch', u, hpatch', rfl⟩, trivial⟩

end Document

/-! ### A tally -/

/-- Tallies have counts by name. -/
def tallyType : DocumentType where
  name := "Tally"
  className := "Tally"
  collection := some "tallies"
  fields := [{ Field.ofKind "id" (.scalar .objectId) with storageName := idKey },
    .dict "counts" (.scalar .int)]
  primaryKey := some "id"
  isDynamic := false
  allowsInheritance := false
  superclass := none

theorem tallyType_built : tallyType.Built := by
  let plain : Declaration := (Declaration.document "Tally").inCollection "tallies"
  exact ⟨plain.withField (.dict "counts" (.scalar .int)), rfl⟩

/-- A tally with some counts. -/
def tally (counts : List (String × Value)) (changed : DirtyPaths) : Document :=
  ⟨tallyType, [("counts", .dict counts), ("id", .string "t")], changed, none⟩

/-- A tally with one count. -/
def firstTally : Document :=
  tally [("a", .int 1)] .empty

/-- The stored tally. -/
def storedTally : Object :=
  [(idKey, .string "t"), ("counts", .object [("a", Json.ofInt64 1)])]

/-- Counts something for the first time. -/
def countOnce (key : String) : Visitor Unit :=
  ⟨fun l => ((), l), fun d => ((), (d.insert key (.int 1)).2), fun doc => ((), doc), fun _ => ()⟩

/-- Counting is a tracked call. -/
theorem worked_count (key : String) :
    firstTally.Worked (firstTally.viewed .field "counts" [] (countOnce key)) := by
  have hsteps : firstTally.NamedAlong .field "counts" [] := by
    intro name opened henter
    cases henter
    trivial
  exact .view (.refl _) (by decide) hsteps (fun _ => .refl)
    (fun d => .single (.insert d key (.int 1))) fun doc => .refl doc

/-- The patch of one new count. -/
theorem gives_countPatch {counted : Document} {path key : String}
    (hpaths : counted.changedPaths.paths = [path])
    (hplace : counted.locate path =
      (⟨some (Field.ofKind key (.scalar .int)), some (.int 1)⟩, path)) :
    counted.incrementalPatch.Gives ⟨[(path, Json.ofInt64 1)], []⟩ := by
  rw [Document.incrementalPatch, hpaths, Document.patchPaths, hplace]
  exact ⟨.fresh, .fresh, rfl⟩

/-- A tally with a second count, which is new. -/
def secondTally : Document :=
  tally [("a", .int 1), ("b", .int 1)] (DirtyPaths.empty.mark "counts.b")

theorem toStorage_succeeds_iff_tally :
    firstTally.Worked secondTally ∧ "" ∉ firstTally.dirty.paths ∧ secondTally.Representable ∧
      secondTally.Steady ∧ firstTally.toStorage.Gives storedTally ∧
      secondTally.incrementalPatch.Gives ⟨[("counts.b", Json.ofInt64 1)], []⟩ ∧
      secondTally.KeepsUnseenRules := by
  have hworked : firstTally.Worked secondTally := worked_count "b"
  have hrecord : "" ∉ firstTally.dirty.paths := by decide
  have hdoc : secondTally.Representable :=
    ⟨by decide, ⟨by decide, trivial, trivial, trivial⟩, trivial, trivial⟩
  have hsteady : secondTally.Steady := by
    refine Document.steady_iff.mpr
      ⟨tallyType_built, fun f hf hnone => ?_, ⟨trivial, trivial, trivial⟩, trivial, trivial⟩
    rcases List.mem_cons.mp hf with rfl | hf
    · cases hnone
    · rcases List.mem_cons.mp hf with rfl | hf
      · cases hnone
      · cases hf
  have hfull : firstTally.toStorage.Gives storedTally := ⟨.fresh, .fresh, rfl⟩
  have hpatch : secondTally.incrementalPatch.Gives ⟨[("counts.b", Json.ofInt64 1)], []⟩ :=
    gives_countPatch rfl rfl
  have hsucceeds : secondTally.toStorage.Succeeds := fun s => ⟨_, s, rfl, trivial⟩
  exact ⟨hworked, hrecord, hdoc, hsteady, hfull, hpatch,
    (hworked.toStorage_succeeds_iff hrecord hdoc hsteady hfull hpatch).mp hsucceeds⟩

/-- A tally with a count under a name that no dict can be stored with. -/
def misnamedTally : Document :=
  tally [("$bad", .int 1), ("a", .int 1)] (DirtyPaths.empty.mark "counts.$bad")

/-- The patch stores the count, and the whole is refused. -/
theorem misnamedTally_not_storable :
    firstTally.Worked misnamedTally ∧ firstTally.toStorage.Gives storedTally ∧
      misnamedTally.incrementalPatch.Gives ⟨[("counts.$bad", Json.ofInt64 1)], []⟩ ∧
      ∀ s, misnamedTally.toStorage.runFrom s =
        (.error (.validation "counts" (.dictKey "$bad")), s) :=
  ⟨worked_count "$bad", ⟨.fresh, .fresh, rfl⟩, gives_countPatch rfl rfl, fun _ => rfl⟩

end DocumentMapper
