import DocumentMapper.Proofs.ChangedPlaces

/-!
# When a patch of changes can be faithful

A document stores some values in a form that has other parts than the value: a geometry, a
reference. A patch that writes below such a place writes beside what is stored there. `Faithful`
lists what has to hold of the places that a patch passes so that this cannot happen, for a document
as it was saved and as it is now. It is stated for the places below any position, so that it can be
followed down.

The other conditions of this module describe what the values in memory are in any case
(`Value.Representable`), how the changed paths of a document relate to what one of the documents in
it has recorded (`Recorded`), and which edits a patch makes below a place (`EditsFor`). All of them
hold of the parts of a value if they hold of the value.

## Main results

* `Faithful.enter`, `EditsFor.enter`: the conditions for a part;
* `Recorded.item`, `Recorded.entry`, `Recorded.inside`: what is recorded about a part.
-/

namespace DocumentMapper

open Text Drawing

/-! ### Positions and changed paths -/

/-- No path leads to something above the position. -/
def Reached (paths : List (List String)) (position : List String) : Prop :=
  ∀ k ∈ paths, k <+: position → k = position

/-- No path leads to the position or to something above it. -/
def Uncovered (paths : List (List String)) (position : List String) : Prop :=
  ∀ k ∈ paths, ¬ k <+: position

theorem Reached.uncovered {paths : List (List String)} {position : List String}
    (h : Reached paths position) (hnot : position ∉ paths) : Uncovered paths position :=
  fun k hk hprefix => hnot (h k hk hprefix ▸ hk)

/-- What stands right below an uncovered position is reached. -/
theorem Uncovered.reached {paths : List (List String)} {position : List String}
    (h : Uncovered paths position) (segment : String) : Reached paths (position ++ [segment]) := by
  intro k hk hprefix
  rcases List.prefix_concat_iff.mp hprefix with rfl | hprefix
  · rfl
  · exact absurd hprefix (h k hk)

/-! ### Values in memory -/

mutual

/-- The maps inside the value have each key once, and no list is longer than a machine can count. -/
def Value.Representable : Value → Prop
  | .list items => items.length ≤ Number.wordCount ∧ representableItems items
  | .dict entries => (entries.map Prod.fst).Nodup ∧ representableEntries entries
  | .document doc => doc.Representable
  | _ => True
termination_by structural v => v

/-- The same for some values. -/
def representableItems : List Value → Prop
  | [] => True
  | v :: vs => v.Representable ∧ representableItems vs
termination_by structural vs => vs

/-- The same for the values of some entries. -/
def representableEntries : List (String × Value) → Prop
  | [] => True
  | (_, v) :: rest => v.Representable ∧ representableEntries rest
termination_by structural es => es

/-- The same for the values of a document. -/
def Document.Representable : Document → Prop
  | ⟨_, values, _, _⟩ => (values.map Prod.fst).Nodup ∧ representableEntries values
termination_by structural doc => doc

end

/-- What stands at a place is representable. -/
def RepresentableAt (part : Option Value) : Prop :=
  ∀ v, part = some v → v.Representable

theorem representableAt_item {items : List Value} (h : representableItems items) (i : Nat) :
    RepresentableAt items[i]? := by
  induction items generalizing i with
  | nil =>
    intro v hv
    simp at hv
  | cons w ws ih =>
    cases i with
    | zero =>
      intro v hv
      obtain rfl : w = v := by simpa using hv
      exact h.1
    | succ i => simpa using ih h.2 i

theorem representableAt_entry {entries : List (String × Value)} (h : representableEntries entries)
    (key : String) : RepresentableAt (Entries.get? entries key) := by
  induction entries with
  | nil =>
    intro v hv
    cases hv
  | cons e rest ih =>
    obtain ⟨k, w⟩ := e
    intro v hv
    by_cases hk : k = key
    · simp only [Entries.get?, hk, ↓reduceIte, Option.some.injEq] at hv
      exact hv ▸ h.1
    · simp only [Entries.get?, hk, ↓reduceIte] at hv
      exact ih h.2 v hv

theorem Document.Representable.values {doc : Document} (h : doc.Representable) :
    (doc.values.map Prod.fst).Nodup ∧ ∀ name, RepresentableAt (Entries.get? doc.values name) := by
  obtain ⟨type, values, dirty, raw⟩ := doc
  exact ⟨h.1, representableAt_entry h.2⟩

/-! ### The conditions of a faithful patch -/

/-- Two places of one field at which lives the same, up to its marks. -/
structure Place.Resembles (p q : Place) : Prop where
  field : p.field = q.field
  value : p.value.map Value.unmarked = q.value.map Value.unmarked

theorem Place.Resembles.refl (p : Place) : p.Resembles p :=
  ⟨rfl, rfl⟩

theorem Place.Resembles.of_value (f : Option Field) {v w : Option Value}
    (h : v.map Value.unmarked = w.map Value.unmarked) : Place.Resembles ⟨f, v⟩ ⟨f, w⟩ :=
  ⟨rfl, h⟩

/-- What has to hold of the places below a position, in a document as it was saved and as it is now:

* what stands at a place that is not below a changed path has one stored form only, so that no
  default is drawn for it that could differ the next time;
* a changed path passes no place whose stored form has other parts than the value, and its names in
  the store are segments;
* a document that is not covered stores no two attributes under one name;
* a document that is stored by its key has kept it, as it was stored with any marks. -/
structure Faithful (paths : List (List String)) (position : List String) (before now : Place) :
    Prop where
  determined : ∀ q, Reached paths (position ++ q) → (now.follow q).1.toJson.Determined
  transparent : ∀ q s rest, position ++ q ++ s :: rest ∈ paths →
    ¬ (now.follow q).1.Opaque ∧ IsSegment ((now.follow q).1.enter s).2
  apart : ∀ q doc, Uncovered paths (position ++ q) →
    (now.follow q).1.value = some (.document doc) → doc.StoredApart
  keys : ∀ q old doc, Uncovered paths (position ++ q) → (now.follow q).1.Opaque →
    (before.follow q).1.value = some (.document old) →
    (now.follow q).1.value = some (.document doc) →
    ∀ (p : Place) j j', p.Resembles (before.follow q).1 → p.toJson.Gives j →
      (now.follow q).1.toJson.Gives j' → j.content = j'.content

theorem Place.follow_cons (p : Place) (s : String) (q : List String) :
    p.follow (s :: q) = (((p.enter s).1.follow q).1, (p.enter s).2 :: ((p.enter s).1.follow q).2) :=
  rfl

/-- Nothing lives below a place at which nothing lives. -/
theorem Place.follow_of_none {p : Place} (h : p.value = none) (q : List String) :
    (p.follow q).1.value = none := by
  induction q generalizing p with
  | nil => exact h
  | cons s q ih =>
    rw [Place.follow_cons]
    refine ih ?_
    simp [Place.enter, h]

/-- Nothing lives below a value without parts. -/
theorem Place.value_enter_of_leaf {p : Place} (h : ∀ v, p.value = some v → v.IsLeaf) (s : String) :
    (p.enter s).1.value = none := by
  obtain ⟨f, v⟩ := p
  cases v with
  | none => rfl
  | some v =>
    have hleaf := h v rfl
    cases v <;> first | rfl | exact absurd hleaf id

/-- **The conditions hold of the parts of a place.** -/
theorem Faithful.enter {paths : List (List String)} {position : List String} {before now : Place}
    (h : Faithful paths position before now) (s : String) :
    Faithful paths (position ++ [s]) (before.enter s).1 (now.enter s).1 := by
  have hposition : ∀ q, position ++ [s] ++ q = position ++ s :: q := by simp
  refine ⟨fun q hq => ?_, fun q t rest hq => ?_, fun q doc hq hdoc => ?_,
    fun q old doc hq hclosed hold hdoc => ?_⟩
  · rw [hposition] at hq
    exact h.determined (s :: q) hq
  · rw [hposition] at hq
    exact h.transparent (s :: q) t rest hq
  · rw [hposition] at hq
    exact h.apart (s :: q) doc hq hdoc
  · rw [hposition] at hq
    exact h.keys (s :: q) old doc hq hclosed hold hdoc

/-- The names in the store on the way of a changed path are segments. -/
theorem Faithful.isSegment_follow {paths : List (List String)} {position : List String}
    {before now : Place} (h : Faithful paths position before now) {q : List String}
    (hq : position ++ q ∈ paths) : ∀ s ∈ (now.follow q).2, IsSegment s := by
  induction q generalizing position before now with
  | nil => exact fun s hs => absurd hs List.not_mem_nil
  | cons first rest ih =>
    intro s hs
    rw [Place.follow_cons] at hs
    rcases List.mem_cons.mp hs with rfl | hs
    · exact (h.transparent [] first rest (by simpa using hq)).2
    · exact ih (h.enter first) (by simpa using hq) s hs

/-- Nothing but documents is compared with what was there before. -/
theorem Faithful.of_no_document {paths : List (List String)} {position : List String}
    {before before' now : Place} (h : Faithful paths position before now)
    (hnone : ∀ q doc, (before'.follow q).1.value ≠ some (.document doc)) :
    Faithful paths position before' now :=
  ⟨h.determined, h.transparent, h.apart, fun q old _ _ _ hold => absurd hold (hnone q old)⟩

/-- **A patch is faithful for a document of values without parts**, if it and its attributes have
one stored form each, no two of them under one name. -/
theorem Faithful.of_flat {paths : List (List String)} {before : Place} {doc : Document}
    (hleaf : ∀ name v, Entries.get? doc.values name = some v → v.IsLeaf)
    (hwhole : doc.place.toJson.Determined)
    (hattributes : ∀ name, (Place.inDocument doc name).toJson.Determined)
    (hpaths : ∀ k ∈ paths, ∃ name, k = [name] ∧ IsSegment (doc.storedName name))
    (hapart : doc.StoredApart) : Faithful paths [] before doc.place := by
  have hbelow : ∀ name s q, ((doc.place.follow (name :: s :: q)).1.value = none) := by
    intro name s q
    rw [Place.follow_cons, Place.follow_cons]
    refine Place.follow_of_none (Place.value_enter_of_leaf (fun v hv => ?_) s) q
    exact hleaf name v hv
  have hdocument : ∀ q doc', (doc.place.follow q).1.value = some (.document doc') → q = [] := by
    intro q doc' hdoc'
    rcases q with _ | ⟨name, _ | ⟨s, q⟩⟩
    · rfl
    · exact absurd (hleaf name _ hdoc') id
    · rw [hbelow] at hdoc'
      cases hdoc'
  refine ⟨fun q _ => ?_, fun q s rest hq => ?_, fun q doc' _ hdoc' => ?_,
    fun q old doc' _ hclosed _ hdoc' => ?_⟩
  · rcases q with _ | ⟨name, _ | ⟨s, q⟩⟩
    · exact hwhole
    · exact hattributes name
    · intro a b ha hb
      rw [Place.toJson, hbelow] at ha hb
      rw [gives_pure.mp ha, gives_pure.mp hb]
  · obtain ⟨name, hname, hsegment⟩ := hpaths _ hq
    rcases q with _ | ⟨t, q⟩
    · obtain ⟨rfl, -⟩ := List.cons.inj hname
      exact ⟨fun hfield => (by cases hfield), hsegment⟩
    · simp at hname
  · obtain rfl := hdocument q doc' hdoc'
    obtain rfl : doc = doc' := Value.document.inj (Option.some.inj hdoc')
    exact hapart
  · obtain rfl := hdocument q doc' hdoc'
    cases hclosed

/-! ### What is recorded about a place -/

/-- The changed paths of a document, seen from a position `r` of a document inside it, to which
`front` leads and which has recorded `d`. What is recorded there or comes from inside the value is
covered, and a changed path at the position or below it has come from there. -/
structure Recorded (paths : List (List String)) (front r : List String) (d : DirtyPaths)
    (p : Place) : Prop where
  covers : ∀ m ∈ d.segments, ∃ k ∈ paths, k <+: front ++ m
  nested : (∀ f, p.field = some f → f.kind.isReference = false) →
    ∀ v q, p.value = some v → Nested d r v q → ∃ k ∈ paths, k <+: front ++ r ++ q
  source : ∀ q, front ++ r ++ q ∈ paths →
    r ++ q ∈ d.segments ∨ ∃ v, p.value = some v ∧ Nested d r v q

namespace Recorded

variable {paths : List (List String)} {front r : List String} {d : DirtyPaths} {f : Option Field}

/-- An uncovered position is not covered by what the document has recorded. -/
theorem not_covered {p : Place} (h : Recorded paths front r d p)
    (hposition : Uncovered paths (front ++ r)) : ¬ d.Covered r := by
  rintro ⟨m, hm, hmr⟩
  obtain ⟨k, hk, hkm⟩ := h.covers m hm
  exact hposition k hk (hkm.trans ((List.prefix_append_right_inj front).mpr hmr))

/-- Where nothing is recorded and nothing comes from inside, no changed path leads. -/
theorem nothing_below {p : Place} (h : Recorded paths front r d p) (hnothing : d.NothingAt r)
    (hinside : ∀ v q, p.value = some v → ¬ Nested d r v q) (q : List String) :
    front ++ r ++ q ∉ paths := by
  intro hq
  rcases h.source q hq with hm | ⟨v, hv, hn⟩
  · exact hnothing _ hm (List.prefix_append r q)
  · exact hinside v q hv hn

/-- What is recorded about an item of a list. -/
theorem item {items : List Value} (h : Recorded paths front r d ⟨f, some (.list items)⟩)
    (hf : ∀ g, f = some g → g.kind.isReference = false) {g : Option Field} (i : Nat) :
    Recorded paths front (r ++ [toString i]) d ⟨g, items[i]?⟩ := by
  refine ⟨h.covers, fun _ v q hv hn => ?_, fun q hq => ?_⟩
  · have := h.nested hf _ _ rfl (.item hv hn)
    simpa using this
  · have hq' : front ++ r ++ (toString i :: q) ∈ paths := by simpa using hq
    rcases h.source _ hq' with hm | ⟨v, hv, hn⟩
    · exact .inl (by simpa using hm)
    · cases hv
      generalize hpath : toString i :: q = path at hn
      cases hn with
      | item hv hn =>
        obtain ⟨hi, rfl⟩ := List.cons.inj hpath
        obtain rfl := toString_injective hi
        exact .inr ⟨_, hv, hn⟩

/-- A changed path from inside some entries comes from the entry that its first segment names, if
nothing is marked under other names. -/
theorem of_entry {entries : List (String × Value)} (hnodup : (entries.map Prod.fst).Nodup)
    (hother : ∀ k v, ¬ IsSegment k → Entries.get? entries k = some v → v.unmarked = v)
    {key s : String} {v : Value} (hv : (s, v) ∈ entries) {r' q q' : List String}
    (hn : Nested d r' v q') (hpath : dottedSegments s ++ q' = key :: q) :
    s = key ∧ q' = q ∧ Entries.get? entries key = some v := by
  have hget := Entries.get?_of_mem hnodup hv
  by_cases hs : IsSegment s
  · rw [dottedSegments_of_isSegment hs] at hpath
    obtain ⟨rfl, rfl⟩ := List.cons.inj hpath
    exact ⟨rfl, rfl, hget⟩
  · rw [← hother s v hs hget] at hn
    exact absurd hn (Value.not_nested_unmarked v)

/-- What is recorded about the value of a key. -/
theorem entry {entries : List (String × Value)}
    (h : Recorded paths front r d ⟨f, some (.dict entries)⟩)
    (hf : ∀ g, f = some g → g.kind.isReference = false) (hnodup : (entries.map Prod.fst).Nodup)
    (hother : ∀ k v, ¬ IsSegment k → Entries.get? entries k = some v → v.unmarked = v)
    {key : String} (hkey : IsSegment key) {g : Option Field} :
    Recorded paths front (r ++ [key]) d ⟨g, Entries.get? entries key⟩ := by
  refine ⟨h.covers, fun _ v q hv hn => ?_, fun q hq => ?_⟩
  · have hn' : Nested d (r ++ dottedSegments key) v q := by rwa [dottedSegments_of_isSegment hkey]
    have := h.nested hf _ _ rfl (.entry (Entries.mem_of_get? hv) hn')
    simpa [dottedSegments_of_isSegment hkey] using this
  · have hq' : front ++ r ++ (key :: q) ∈ paths := by simpa using hq
    rcases h.source _ hq' with hm | ⟨v, hv, hn⟩
    · exact .inl (by simpa using hm)
    · cases hv
      generalize hpath : key :: q = path at hn
      cases hn with
      | entry hv hn =>
        obtain ⟨rfl, rfl, hget⟩ := of_entry hnodup hother hv hn hpath.symm
        rw [dottedSegments_of_isSegment hkey] at hn
        exact .inr ⟨_, hget, hn⟩

/-- What an embedded document has recorded about an attribute. -/
theorem inside {doc : Document} (h : Recorded paths front r d ⟨f, some (.document doc)⟩)
    (hf : ∀ g, f = some g → g.kind.isReference = false)
    (hposition : Uncovered paths (front ++ r)) (hnothing : d.NothingAt r)
    (hnodup : (doc.values.map Prod.fst).Nodup)
    (hother : ∀ k v, ¬ IsSegment k → Entries.get? doc.values k = some v → v.unmarked = v)
    {name : String} (hname : IsSegment name) :
    Recorded paths (front ++ r) [name] doc.dirty (Place.inDocument doc name) := by
  have huncovered := h.not_covered hposition
  refine ⟨fun m hm => h.nested hf _ _ rfl (.own huncovered hm), fun hreference v q hv hn => ?_,
    fun q hq => ?_⟩
  · have hn' : Nested doc.dirty (dottedSegments name) v q := by
      rwa [dottedSegments_of_isSegment hname]
    have hdeclared : (doc.type.field? name).any (fun g => g.kind.isReference) = false := by
      cases hg : doc.type.field? name with
      | none => rfl
      | some g =>
        exact hreference g (by simp [Place.inDocument, DocumentType.describe?, hg])
    have := h.nested hf _ _ rfl (.inside huncovered hdeclared (Entries.mem_of_get? hv) hn')
    simpa [dottedSegments_of_isSegment hname] using this
  · have hq' : front ++ r ++ (name :: q) ∈ paths := by simpa using hq
    rcases h.source _ hq' with hm | ⟨v, hv, hn⟩
    · exact absurd (List.prefix_append r _) (hnothing _ hm)
    · cases hv
      generalize hpath : name :: q = path at hn
      cases hn with
      | own _ hm => exact .inl (by rw [List.singleton_append, hpath]; exact hm)
      | inside _ _ hv hn =>
        obtain ⟨rfl, rfl, hget⟩ := of_entry hnodup hother hv hn hpath.symm
        rw [dottedSegments_of_isSegment hname] at hn
        exact .inr ⟨_, hget, hn⟩

end Recorded

/-! ### The edits below a place -/

/-- The edits that a patch makes below a position: each puts what lives at a changed path, and every
changed path has one. -/
structure EditsFor (paths : List (List String)) (position : List String) (p : Place)
    (edits : List (List String × Edit)) : Prop where
  sound : ∀ e ∈ edits, ∃ q, position ++ q ∈ paths ∧ e.1 = (p.follow q).2 ∧
    (p.follow q).1.Asks e.2
  complete : ∀ q, position ++ q ∈ paths → ∃ edit, ((p.follow q).2, edit) ∈ edits

namespace EditsFor

variable {paths : List (List String)} {position : List String} {p : Place}
  {edits : List (List String × Edit)}

/-- Where no changed path leads there is nothing to edit. -/
theorem eq_nil (h : EditsFor paths position p edits) (hnone : ∀ q, position ++ q ∉ paths) :
    edits = [] := by
  rw [List.eq_nil_iff_forall_not_mem]
  intro e he
  obtain ⟨q, hq, -⟩ := h.sound e he
  exact hnone q hq

/-- Edits of a place that is not changed itself are made below it. -/
theorem ne_nil (h : EditsFor paths position p edits) (hnot : position ∉ paths) :
    ∀ e ∈ edits, e.1 ≠ [] := by
  intro e he hnil
  obtain ⟨q, hq, hpath, -⟩ := h.sound e he
  cases q with
  | nil => exact hnot (by simpa using hq)
  | cons s q =>
    rw [hnil, Place.follow_cons] at hpath
    cases hpath

/-- **The edits of a part** are those below its name in the store, if no other part has that
name. -/
theorem enter (h : EditsFor paths position p edits) (hnot : position ∉ paths) (s : String)
    (hname : ∀ t rest, position ++ t :: rest ∈ paths → (p.enter t).2 = (p.enter s).2 → t = s) :
    EditsFor paths (position ++ [s]) (p.enter s).1 (editsBelow (p.enter s).2 edits) := by
  refine ⟨fun e he => ?_, fun q hq => ?_⟩
  · obtain ⟨path, edit⟩ := e
    obtain ⟨q, hq, hpath, hasks⟩ := h.sound _ (mem_editsBelow.mp he)
    cases q with
    | nil => exact absurd (by simpa using hq) hnot
    | cons t rest =>
      rw [Place.follow_cons] at hpath hasks
      obtain ⟨hhead, htail⟩ := List.cons.inj hpath
      obtain rfl := hname t rest hq hhead.symm
      exact ⟨rest, by simpa using hq, htail, hasks⟩
  · obtain ⟨edit, hedit⟩ := h.complete (s :: q) (by simpa using hq)
    rw [Place.follow_cons] at hedit
    exact ⟨edit, mem_editsBelow.mpr hedit⟩

end EditsFor

end DocumentMapper
