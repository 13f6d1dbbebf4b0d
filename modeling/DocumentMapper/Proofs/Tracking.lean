import DocumentMapper.Document.Basic
import DocumentMapper.Proofs.EntriesLaws
import DocumentMapper.Proofs.Marks

/-!
# What the recorded changes say

The changed paths of a document are a promise: what stands at a position that they do not cover is
what stood there before. `Tracks d r before now` is this promise for the value at the position `r`
of a document with the changed paths `d`. It follows the values down to where they have no parts;
an embedded document makes the promise again for its own attributes and its own changed paths.

Two things are not promised. A visit may have put an empty list or dict where an attribute had no
value, which marks nothing (`Opened`). And names with a point in them are not positions of their
own, so that what has such a name must not have changed at all.

## Main results

* `Tracks.mono`: the promise outlasts marks elsewhere;
* `Value.tracks_unmarked`: a complete value keeps the promise before anything was marked.
-/

namespace DocumentMapper

open Text

/-- A name that stands for an attribute as a path of one segment. -/
def IsAttributeName (name : String) : Prop :=
  name ≠ "" ∧ IsSegment name

/-- A value that no path leads into. -/
def Value.IsLeaf : Value → Prop
  | .list _ | .dict _ | .document _ => False
  | _ => True

/-- Nothing is recorded at a position or below it. -/
def DirtyPaths.NothingAt (d : DirtyPaths) (r : List String) : Prop :=
  ∀ m ∈ d.segments, ¬ r <+: m

/-! ### Complete values -/

/-- No attribute without value waits for a default. -/
def Document.LacksNoDefault (doc : Document) : Prop :=
  ∀ name f, doc.type.field? name = some f → Entries.get? doc.values name = none → f.default = none

mutual

/-- No document inside the value waits for a default. -/
def Value.Complete : Value → Prop
  | .list items => completeValues items
  | .dict entries => completeEntries entries
  | .document doc => doc.Complete
  | _ => True
termination_by structural v => v

/-- The same for some values. -/
def completeValues : List Value → Prop
  | [] => True
  | v :: vs => v.Complete ∧ completeValues vs
termination_by structural vs => vs

/-- The same for the values of some entries. -/
def completeEntries : List (String × Value) → Prop
  | [] => True
  | (_, v) :: rest => v.Complete ∧ completeEntries rest
termination_by structural es => es

/-- Neither the document nor one inside it waits for a default. -/
def Document.Complete : Document → Prop
  | ⟨type, values, dirty, raw⟩ =>
    Document.LacksNoDefault ⟨type, values, dirty, raw⟩ ∧ completeEntries values
termination_by structural doc => doc

end

@[simp] theorem completeEntries_iff (es : List (String × Value)) :
    completeEntries es ↔ ∀ e ∈ es, e.2.Complete := by
  induction es with
  | nil => simp [completeEntries]
  | cons e rest ih =>
    obtain ⟨k, v⟩ := e
    simp [completeEntries, ih]

theorem Document.complete_iff (doc : Document) :
    doc.Complete ↔ doc.LacksNoDefault ∧ ∀ e ∈ doc.values, e.2.Complete := by
  obtain ⟨type, values, dirty, raw⟩ := doc
  simp [Document.Complete]

/-! ### The promise -/

/-- What an attribute of a type counts as having had: what it had, or what a visit put in place of
no value. -/
inductive Opened (t : DocumentType) (name : String) : Option Value → Option Value → Prop
  | same (o : Option Value) : Opened t name o o
  | list {o : Option Value} (hmissing : o = none ∨ o = some .null) {f : Field}
      (hf : t.describe? name = some f) (hkind : f.kind.isAny = true ∨ f.kind.isList = true) :
      Opened t name o (some (.list []))
  | dict {o : Option Value} (hmissing : o = none ∨ o = some .null) :
      Opened t name o (some (.dict []))

/-- What stands somewhere is what stood there before, and nothing is marked in it. -/
def Untouched (before now : Option Value) : Prop :=
  now = before ∧ ∀ v, before = some v → v.unmarked = v

/-- What stands at a position is what stood there before, as far as the changed paths do not cover
it. -/
inductive Tracks : DirtyPaths → List String → Option Value → Option Value → Prop
  /-- Where a change is recorded, anything may stand. -/
  | covered {d : DirtyPaths} {r : List String} (before now : Option Value) (h : d.Covered r) :
      Tracks d r before now
  | absent {d : DirtyPaths} {r : List String} (h : d.NothingAt r) : Tracks d r none none
  | leaf {d : DirtyPaths} {r : List String} {v : Value} (hleaf : v.IsLeaf) (h : d.NothingAt r) :
      Tracks d r (some v) (some v)
  | list {d : DirtyPaths} {r : List String} {olds items : List Value}
      (hlength : items.length = olds.length)
      (hmarks : ∀ m ∈ d.segments, r <+: m → ∃ i < items.length, r ++ [toString i] <+: m)
      (hitems : ∀ i < items.length, Tracks d (r ++ [toString i]) olds[i]? items[i]?) :
      Tracks d r (some (.list olds)) (some (.list items))
  | dict {d : DirtyPaths} {r : List String} {olds entries : List (String × Value)}
      (hkeys : ∀ key, IsSegment key →
        Tracks d (r ++ [key]) (Entries.get? olds key) (Entries.get? entries key))
      (hother : ∀ key, ¬ IsSegment key →
        Untouched (Entries.get? olds key) (Entries.get? entries key)) :
      Tracks d r (some (.dict olds)) (some (.dict entries))
  | document {d : DirtyPaths} {r : List String} {old doc : Document} (h : d.NothingAt r)
      (htype : doc.type = old.type) (hdefaults : old.LacksNoDefault)
      (hmarks : ∀ m ∈ doc.dirty.segments,
        ∃ name, IsAttributeName name ∧ [name] <+: m ∧ (Entries.get? doc.values name).isSome)
      (opened : String → Option Value)
      (hopened : ∀ name, IsAttributeName name →
        Opened doc.type name (Entries.get? old.values name) (opened name))
      (hattributes : ∀ name, IsAttributeName name →
        Tracks doc.dirty [name] (opened name) (Entries.get? doc.values name))
      (hother : ∀ name, ¬ IsAttributeName name →
        Untouched (Entries.get? old.values name) (Entries.get? doc.values name)) :
      Tracks d r (some (.document old)) (some (.document doc))

/-! ### Marks elsewhere -/

theorem DirtyPaths.nothingAt_empty (r : List String) : DirtyPaths.empty.NothingAt r := by
  simp [NothingAt]

/-- What nothing is recorded at stays so, below it too. -/
theorem DirtyPaths.NothingAt.mono {d d' : DirtyPaths} {r s : List String} (h : d.NothingAt r)
    (hnew : ∀ m ∈ d'.segments, r <+: m → m ∈ d.segments) (hrs : r <+: s) : d'.NothingAt s :=
  fun m hm hsm => h m (hnew m hm (hrs.trans hsm)) (hrs.trans hsm)

/-- **The promise for a position outlasts marks elsewhere**: what was covered stays covered, and no
new path leads to the position or below it. -/
theorem Tracks.mono {d d' : DirtyPaths} {r : List String} {before now : Option Value}
    (h : Tracks d r before now) (hkeeps : d.Keeps d')
    (hnew : ∀ m ∈ d'.segments, r <+: m → m ∈ d.segments) : Tracks d' r before now := by
  induction h with
  | covered before now hcovered => exact .covered before now (hkeeps.covered hcovered)
  | absent hnothing => exact .absent (hnothing.mono hnew (List.prefix_refl _))
  | leaf hleaf hnothing => exact .leaf hleaf (hnothing.mono hnew (List.prefix_refl _))
  | @list d r olds items hlength hmarks hitems ih =>
    refine .list hlength (fun m hm hrm => hmarks m (hnew m hm hrm) hrm) fun i hi => ?_
    exact ih i hi hkeeps fun m hm him => hnew m hm ((List.prefix_append _ _).trans him)
  | @dict d r olds entries hkeys hother ih =>
    refine .dict (fun key hkey => ?_) hother
    exact ih key hkey hkeeps fun m hm hkm => hnew m hm ((List.prefix_append _ _).trans hkm)
  | document hnothing htype hdefaults hmarks opened hopened hattributes hother =>
    exact .document (hnothing.mono hnew (List.prefix_refl _)) htype hdefaults hmarks opened hopened
      hattributes hother

/-! ### Before anything was marked -/

@[simp] theorem get?_unmarkedEntries (es : List (String × Value)) (key : String) :
    Entries.get? (unmarkedEntries es) key = (Entries.get? es key).map Value.unmarked := by
  induction es with
  | nil => rfl
  | cons e rest ih =>
    obtain ⟨k, v⟩ := e
    by_cases hk : k = key
    · simp [unmarkedEntries, Entries.get?, hk]
    · simp [unmarkedEntries, Entries.get?, hk, ih]

@[simp] theorem Document.unmarked_type (doc : Document) : doc.unmarked.type = doc.type := by
  cases doc
  rfl

@[simp] theorem Document.unmarked_dirty (doc : Document) : doc.unmarked.dirty = .empty := by
  cases doc
  rfl

@[simp] theorem Document.unmarked_values (doc : Document) :
    doc.unmarked.values = unmarkedEntries doc.values := by
  cases doc
  rfl

/-- Forgetting marks leaves a document with the attributes that it has. -/
theorem Document.LacksNoDefault.unmarked {doc : Document} (h : doc.LacksNoDefault) :
    doc.unmarked.LacksNoDefault := by
  intro name f hf hnone
  rw [Document.unmarked_type] at hf
  exact h name f hf (by simpa using hnone)

mutual

/-- Forgetting marks twice is forgetting them once. -/
theorem Value.unmarked_unmarked : ∀ (v : Value), v.unmarked.unmarked = v.unmarked
  | .list items => congrArg Value.list (unmarkedItems_unmarkedItems items)
  | .dict entries => congrArg Value.dict (unmarkedEntries_unmarkedEntries entries)
  | .document doc => congrArg Value.document (Document.unmarked_unmarked doc)
  | .null => rfl
  | .bool _ => rfl
  | .int _ => rfl
  | .float _ => rfl
  | .string _ => rfl
  | .datetime _ => rfl
  | .reference _ => rfl
  | .linked _ => rfl
termination_by structural v => v

/-- The same for some values. -/
theorem unmarkedItems_unmarkedItems : ∀ (vs : List Value),
    unmarkedItems (unmarkedItems vs) = unmarkedItems vs
  | [] => rfl
  | v :: vs => by
    have hv := Value.unmarked_unmarked v
    have hvs := unmarkedItems_unmarkedItems vs
    simp only [unmarkedItems, hv, hvs]
termination_by structural vs => vs

/-- The same for some entries. -/
theorem unmarkedEntries_unmarkedEntries : ∀ (es : List (String × Value)),
    unmarkedEntries (unmarkedEntries es) = unmarkedEntries es
  | [] => rfl
  | (k, v) :: rest => by
    have hv := Value.unmarked_unmarked v
    have hrest := unmarkedEntries_unmarkedEntries rest
    simp only [unmarkedEntries, hv, hrest]
termination_by structural es => es

/-- The same for a document. -/
theorem Document.unmarked_unmarked : ∀ (doc : Document), doc.unmarked.unmarked = doc.unmarked
  | ⟨type, values, _, raw⟩ =>
    congrArg (fun values => Document.mk type values .empty raw)
      (unmarkedEntries_unmarkedEntries values)
termination_by structural doc => doc

end

/-- Nothing is marked in values whose marks were forgotten. -/
theorem untouched_unmarkedEntries (es : List (String × Value)) (key : String) :
    Untouched (Entries.get? (unmarkedEntries es) key) (Entries.get? (unmarkedEntries es) key) := by
  refine ⟨rfl, fun v hv => ?_⟩
  rw [get?_unmarkedEntries] at hv
  obtain ⟨w, -, rfl⟩ := Option.map_eq_some_iff.mp hv
  exact w.unmarked_unmarked

mutual

/-- **A complete value without marks keeps the promise** at a position where nothing is recorded. -/
theorem Value.tracks_unmarked : ∀ (v : Value), v.Complete → ∀ {d : DirtyPaths} {r : List String},
    d.NothingAt r → Tracks d r (some v.unmarked) (some v.unmarked)
  | .list items, hcomplete, d, r, h => by
    refine .list rfl (fun m hm hrm => absurd hrm (h m hm)) fun i _ => ?_
    exact tracks_unmarkedItems items hcomplete i
      (h.mono (fun m hm _ => hm) (List.prefix_append r [toString i]))
  | .dict entries, hcomplete, d, r, h => by
    refine .dict (fun key _ => ?_) fun key _ => untouched_unmarkedEntries entries key
    exact tracks_unmarkedEntries entries hcomplete key
      (h.mono (fun m hm _ => hm) (List.prefix_append r [key]))
  | .document doc, hcomplete, d, r, h => Document.tracks_unmarked doc hcomplete h
  | .null, _, _, _, h => .leaf trivial h
  | .bool _, _, _, _, h => .leaf trivial h
  | .int _, _, _, _, h => .leaf trivial h
  | .float _, _, _, _, h => .leaf trivial h
  | .string _, _, _, _, h => .leaf trivial h
  | .datetime _, _, _, _, h => .leaf trivial h
  | .reference _, _, _, _, h => .leaf trivial h
  | .linked _, _, _, _, h => .leaf trivial h
termination_by structural v => v

/-- The same for the items of a list. -/
theorem tracks_unmarkedItems : ∀ (items : List Value), completeValues items → ∀ (i : Nat)
    {d : DirtyPaths} {r : List String}, d.NothingAt r →
    Tracks d r (unmarkedItems items)[i]? (unmarkedItems items)[i]?
  | [], _, i, _, _, h => by
    simp only [unmarkedItems, List.getElem?_nil]
    exact .absent h
  | v :: vs, hcomplete, i, d, r, h => by
    cases i with
    | zero => exact Value.tracks_unmarked v hcomplete.1 h
    | succ i => exact tracks_unmarkedItems vs hcomplete.2 i h
termination_by structural items => items

/-- The same for the values of entries. -/
theorem tracks_unmarkedEntries : ∀ (entries : List (String × Value)), completeEntries entries →
    ∀ (key : String) {d : DirtyPaths} {r : List String}, d.NothingAt r →
    Tracks d r (Entries.get? (unmarkedEntries entries) key)
      (Entries.get? (unmarkedEntries entries) key)
  | [], _, _, _, _, h => .absent h
  | (k, v) :: rest, hcomplete, key, d, r, h => by
    by_cases hk : k = key
    · simp only [unmarkedEntries, Entries.get?, hk, ↓reduceIte]
      exact Value.tracks_unmarked v hcomplete.1 h
    · simp only [unmarkedEntries, Entries.get?, hk, ↓reduceIte]
      exact tracks_unmarkedEntries rest hcomplete.2 key h
termination_by structural entries => entries

/-- The same for an embedded document. -/
theorem Document.tracks_unmarked : ∀ (doc : Document), doc.Complete →
    ∀ {d : DirtyPaths} {r : List String}, d.NothingAt r →
    Tracks d r (some (.document doc.unmarked)) (some (.document doc.unmarked))
  | ⟨type, values, dirty, raw⟩, hcomplete, d, r, h => by
    refine .document h rfl (Document.LacksNoDefault.unmarked hcomplete.1) (by simp)
      (Entries.get? (unmarkedEntries values)) (fun name _ => .same _) (fun name _ => ?_)
      fun name _ => untouched_unmarkedEntries values name
    exact tracks_unmarkedEntries values hcomplete.2 name (DirtyPaths.nothingAt_empty [name])
termination_by structural doc => doc

end

end DocumentMapper
