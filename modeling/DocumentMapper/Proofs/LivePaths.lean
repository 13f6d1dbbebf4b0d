import DocumentMapper.Document.View
import DocumentMapper.Proofs.ChangedPlaces

/-!
# What stands at the end of a path, then and now

A path of positions, keys and attribute names leads to a value of a document, which may have changed
or not. `Unchanged` says when it counts as the same: what changed paths and stored forms its
documents carry makes no difference, an attribute without value may have been opened as an empty
list or dict, and two documents are not told apart inside an attribute that is declared as a
reference.

`Followed` relates a value to what stood at its position before, as far as no changed path covers
it. Where no changed path meets a path, what stands at its end is unchanged.

## Main results

* `dottedSegments_path`: the segments of the path of some steps;
* `Followed.mono`: the relation outlasts further marks;
* `Followed.unchanged_walk`: a value that no changed path meets is unchanged.
-/

namespace DocumentMapper

open Text

/-! ### Paths of steps -/

namespace ViewStep

/-- The part of a path that a step adds: the digits of the position, or the name. -/
def text : ViewStep → String
  | item i => toString i
  | key name => name

/-- The dotted path of some steps. -/
def path (steps : List ViewStep) : String :=
  dotted (steps.map text)

/-- The segments of the path of some steps. A name with points in it has several of them. -/
def segments (steps : List ViewStep) : List String :=
  steps.flatMap fun step => dottedSegments step.text

@[simp] theorem segments_nil : segments [] = [] := rfl

@[simp] theorem segments_item (i : Nat) (rest : List ViewStep) :
    segments (.item i :: rest) = toString i :: segments rest := by
  rw [segments, List.flatMap_cons, text, dottedSegments_of_isSegment (isSegment_toString i)]
  rfl

@[simp] theorem segments_key (name : String) (rest : List ViewStep) :
    segments (.key name :: rest) = dottedSegments name ++ segments rest := rfl

/-- **The path of some steps has their segments.** -/
theorem dottedSegments_path {steps : List ViewStep} (hne : steps ≠ []) :
    dottedSegments (path steps) = segments steps := by
  rw [path, dottedSegments_dotted_parts (by simpa using hne), List.flatMap_map]
  rfl

end ViewStep

/-! ### Seats -/

/-- How a value stands in a document. -/
structure Seat where
  /-- Inside an attribute that is declared as a reference. -/
  referenced : Bool
  /-- Where a view creates an empty list if there is no value. -/
  opensList : Bool
  /-- Where a view creates an empty dict if there is no value. -/
  opensDict : Bool

namespace Seat

/-- A value for itself. -/
def free : Seat := ⟨false, false, false⟩

/-- The parts of a list or dict. -/
def part (seat : Seat) : Seat := ⟨seat.referenced, false, false⟩

/-- No view creates anything there. -/
def Closed (seat : Seat) : Prop :=
  seat.opensList = false ∧ seat.opensDict = false

theorem closed_free : free.Closed := ⟨rfl, rfl⟩

theorem closed_part (seat : Seat) : seat.part.Closed := ⟨rfl, rfl⟩

/-- A value counts as having been `start`: it was, or a view put `start` in place of no value. -/
inductive Starts (seat : Seat) : Option Value → Value → Prop
  | same (v : Value) : Starts seat (some v) v
  | list {before : Option Value} (hmissing : before = none ∨ before = some .null)
      (h : seat.opensList = true) : Starts seat before (.list [])
  | dict {before : Option Value} (hmissing : before = none ∨ before = some .null)
      (h : seat.opensDict = true) : Starts seat before (.dict [])

end Seat

/-- The seat of an attribute. -/
def DocumentType.seat (t : DocumentType) (name : String) : Seat where
  referenced := (t.field? name).any fun f => f.kind.isReference
  opensList := (t.describe? name).any fun f => f.kind.isAny || f.kind.isList
  opensDict := (t.describe? name).any fun f => f.kind.isAny || f.kind.isDict

/-- What some steps lead to, and how it stands there. Nothing is entered that a reference attribute
holds as a document. -/
def walk : List ViewStep → Seat → Option Value → Seat × Option Value
  | [], seat, v => (seat, v)
  | .item i :: rest, seat, some (.list items) => walk rest seat.part items[i]?
  | .key name :: rest, seat, some (.dict entries) =>
    walk rest seat.part (Entries.get? entries name)
  | .key name :: rest, seat, some (.document doc) =>
    if seat.referenced then (.free, none)
    else walk rest (doc.type.seat name) (Entries.get? doc.values name)
  | _ :: _, _, _ => (.free, none)

/-- What some steps lead to in a document, and how it stands there. -/
def Document.live (doc : Document) (steps : List ViewStep) : Seat × Option Value :=
  walk steps .free (some (.document doc))

/-- Nothing stands below nothing. -/
theorem walk_none (steps : List ViewStep) {seat : Seat} (hseat : seat.Closed) :
    (walk steps seat none).1.Closed ∧ (walk steps seat none).2 = none := by
  rcases steps with _ | ⟨step, rest⟩
  · exact ⟨hseat, rfl⟩
  · cases step <;> exact ⟨Seat.closed_free, rfl⟩

/-- Nothing stands below a leaf. -/
theorem walk_leaf (step : ViewStep) (rest : List ViewStep) (seat : Seat) {v : Value}
    (hleaf : v.IsLeaf) : walk (step :: rest) seat (some v) = (.free, none) := by
  cases v <;> first | exact absurd hleaf id | (cases step <;> rfl)

/-! ### Unchanged values -/

/-- What stands at a seat counts as the same as before. -/
inductive Unchanged : Seat → Option Value → Option Value → Prop
  | absent (seat : Seat) : Unchanged seat none none
  | leaf {seat : Seat} {v : Value} (hleaf : v.IsLeaf) : Unchanged seat (some v) (some v)
  | list {seat : Seat} {before : Option Value} {olds items : List Value}
      (hstart : seat.Starts before (.list olds))
      (hitems : ∀ i : Nat, Unchanged seat.part olds[i]? items[i]?) :
      Unchanged seat before (some (.list items))
  | dict {seat : Seat} {before : Option Value} {olds entries : List (String × Value)}
      (hstart : seat.Starts before (.dict olds))
      (hkeys : ∀ key, Unchanged seat.part (Entries.get? olds key) (Entries.get? entries key)) :
      Unchanged seat before (some (.dict entries))
  | document {seat : Seat} {old doc : Document} (htype : doc.type = old.type)
      (hattributes : ∀ name,
        Unchanged (doc.type.seat name) (Entries.get? old.values name)
          (Entries.get? doc.values name)) :
      Unchanged seat (some (.document old)) (some (.document doc))
  /-- References are never followed. -/
  | referenced {seat : Seat} (h : seat.referenced = true) (old doc : Document) :
      Unchanged seat (some (.document old)) (some (.document doc))

/-- Where nothing is created, nothing counts as the same only as nothing. -/
theorem Unchanged.eq_none {seat : Seat} (hseat : seat.Closed) {now : Option Value}
    (h : Unchanged seat none now) : now = none := by
  cases h with
  | absent => rfl
  | list hstart _ =>
    cases hstart with
    | list _ h => exact absurd (hseat.1.symm.trans h) Bool.false_ne_true
  | dict hstart _ =>
    cases hstart with
    | dict _ h => exact absurd (hseat.2.symm.trans h) Bool.false_ne_true

/-- A leaf counts as the same only as itself. -/
theorem Unchanged.eq_leaf {seat : Seat} {before : Option Value} {v : Value} (hleaf : v.IsLeaf)
    (h : Unchanged seat before (some v)) : before = some v := by
  cases h with
  | leaf => rfl
  | list => exact absurd hleaf id
  | dict => exact absurd hleaf id
  | document => exact absurd hleaf id
  | referenced => exact absurd hleaf id

/-! ### Followed values -/

/-- What stands at a position of a document with some changed paths is what stood there before, as
far as they do not cover it. An embedded document has changed paths of its own, and it keeps the
attributes that it had. -/
inductive Followed : DirtyPaths → List String → Seat → Option Value → Option Value → Prop
  | covered {d : DirtyPaths} {r : List String} {seat : Seat} (before now : Option Value)
      (h : d.Covered r) : Followed d r seat before now
  | absent (d : DirtyPaths) (r : List String) (seat : Seat) : Followed d r seat none none
  | leaf {d : DirtyPaths} {r : List String} {seat : Seat} {v : Value} (hleaf : v.IsLeaf) :
      Followed d r seat (some v) (some v)
  | list {d : DirtyPaths} {r : List String} {seat : Seat} {before : Option Value}
      {olds items : List Value} (hstart : seat.Starts before (.list olds))
      (hitems : ∀ i : Nat, Followed d (r ++ [toString i]) seat.part olds[i]? items[i]?) :
      Followed d r seat before (some (.list items))
  | dict {d : DirtyPaths} {r : List String} {seat : Seat} {before : Option Value}
      {olds entries : List (String × Value)} (hstart : seat.Starts before (.dict olds))
      (hkeys : ∀ key, Followed d (r ++ dottedSegments key) seat.part (Entries.get? olds key)
        (Entries.get? entries key)) : Followed d r seat before (some (.dict entries))
  | document {d : DirtyPaths} {r : List String} {seat : Seat} {old doc : Document}
      (htype : doc.type = old.type)
      (hkept : ∀ name, (Entries.get? old.values name).isSome →
        (Entries.get? doc.values name).isSome)
      (hattributes : ∀ name, Followed doc.dirty (dottedSegments name) (doc.type.seat name)
        (Entries.get? old.values name) (Entries.get? doc.values name)) :
      Followed d r seat (some (.document old)) (some (.document doc))

/-- **A followed value stays followed** when more is marked. -/
theorem Followed.mono {d d' : DirtyPaths} {r : List String} {seat : Seat}
    {before now : Option Value} (h : Followed d r seat before now) (hkeeps : d.Keeps d') :
    Followed d' r seat before now := by
  induction h with
  | covered before now hcovered => exact .covered before now (hkeeps.covered hcovered)
  | absent d r seat => exact .absent d' r seat
  | leaf hleaf => exact .leaf hleaf
  | list hstart _ ih => exact .list hstart fun i => ih i hkeeps
  | dict hstart _ ih => exact .dict hstart fun key => ih key hkeeps
  | document htype hkept hattributes _ => exact .document htype hkept hattributes

mutual

/-- A value is followed from itself. -/
theorem Value.followed_self : ∀ (v : Value) (d : DirtyPaths) (r : List String) (seat : Seat),
    Followed d r seat (some v) (some v)
  | .list items, d, r, seat =>
    .list (.same _) fun i => followed_item items i d (r ++ [toString i]) seat.part
  | .dict entries, d, r, seat =>
    .dict (.same _) fun key => followed_entry entries key d (r ++ dottedSegments key) seat.part
  | .document doc, d, r, seat => Document.followed_self doc d r seat
  | .null, _, _, _ => .leaf trivial
  | .bool _, _, _, _ => .leaf trivial
  | .int _, _, _, _ => .leaf trivial
  | .float _, _, _, _ => .leaf trivial
  | .string _, _, _, _ => .leaf trivial
  | .datetime _, _, _, _ => .leaf trivial
  | .reference _, _, _, _ => .leaf trivial
  | .linked _, _, _, _ => .leaf trivial
termination_by structural v => v

/-- The same for an item. -/
theorem followed_item : ∀ (items : List Value) (i : Nat) (d : DirtyPaths) (r : List String)
    (seat : Seat), Followed d r seat items[i]? items[i]?
  | [], _, d, r, seat => .absent d r seat
  | v :: _, 0, d, r, seat => Value.followed_self v d r seat
  | _ :: vs, i + 1, d, r, seat => followed_item vs i d r seat
termination_by structural items => items

/-- The same for the value of a key. -/
theorem followed_entry : ∀ (entries : List (String × Value)) (key : String) (d : DirtyPaths)
    (r : List String) (seat : Seat),
    Followed d r seat (Entries.get? entries key) (Entries.get? entries key)
  | [], _, d, r, seat => .absent d r seat
  | (k, v) :: rest, key, d, r, seat => by
    rw [Entries.get?_cons]
    split
    · exact Value.followed_self v d r seat
    · exact followed_entry rest key d r seat
termination_by structural entries => entries

/-- The same for a document. -/
theorem Document.followed_self : ∀ (doc : Document) (d : DirtyPaths) (r : List String)
    (seat : Seat), Followed d r seat (some (.document doc)) (some (.document doc))
  | ⟨type, values, dirty, _⟩, _, _, _ =>
    .document rfl (fun _ h => h) fun name =>
      followed_entry values name dirty (dottedSegments name) (type.seat name)
termination_by structural doc => doc

end

/-! ### Reported paths -/

/-- The changed paths that come from the documents inside a value, as reading the keys finds
them. -/
inductive Reported : DirtyPaths → List String → Value → List String → Prop
  | item {d : DirtyPaths} {r : List String} {items : List Value} {i : Nat} {v : Value}
      {q : List String} (hv : items[i]? = some v) (h : Reported d (r ++ [toString i]) v q) :
      Reported d r (.list items) (toString i :: q)
  | entry {d : DirtyPaths} {r : List String} {entries : List (String × Value)} {key : String}
      {v : Value} {q : List String} (hv : Entries.get? entries key = some v)
      (h : Reported d (r ++ dottedSegments key) v q) :
      Reported d r (.dict entries) (dottedSegments key ++ q)
  | own {d : DirtyPaths} {r : List String} {doc : Document} {q : List String}
      (huncovered : ¬ d.Covered r) (h : q ∈ doc.dirty.segments) : Reported d r (.document doc) q
  | inside {d : DirtyPaths} {r : List String} {doc : Document} {name : String} {v : Value}
      {q : List String} (huncovered : ¬ d.Covered r)
      (hreference : (doc.type.seat name).referenced = false)
      (hv : Entries.get? doc.values name = some v)
      (h : Reported doc.dirty (dottedSegments name) v q) :
      Reported d r (.document doc) (dottedSegments name ++ q)

/-- A reported path comes from inside the value. -/
theorem Reported.nested {d : DirtyPaths} {r : List String} {v : Value} {q : List String}
    (h : Reported d r v q) : Nested d r v q := by
  induction h with
  | item hv _ ih => exact .item hv ih
  | entry hv _ ih => exact .entry (Entries.mem_of_get? hv) ih
  | own huncovered h => exact .own huncovered h
  | inside huncovered hreference hv _ ih =>
    exact .inside huncovered hreference (Entries.mem_of_get? hv) ih

/-- Where a document stands makes no difference to what it reports, unless it is covered. -/
theorem reported_document_iff {d : DirtyPaths} {r : List String} {doc : Document}
    {q : List String} :
    Reported d r (.document doc) q ↔
      ¬ d.Covered r ∧ Reported .empty [] (.document doc) q := by
  constructor
  · intro h
    refine ⟨h.nested.uncovered, ?_⟩
    cases h with
    | own _ h => exact .own (DirtyPaths.not_covered_empty _) h
    | inside _ hreference hv h =>
      exact .inside (DirtyPaths.not_covered_empty _) hreference hv h
  · rintro ⟨huncovered, h⟩
    cases h with
    | own _ h => exact .own huncovered h
    | inside _ hreference hv h => exact .inside huncovered hreference hv h

/-! ### Paths that no change meets -/

/-- No changed path meets the path `q` below a position, neither one of the document that the
position belongs to nor one that is reported from there. -/
structure Quiet (d : DirtyPaths) (r : List String) (seat : Seat) (now : Option Value)
    (q : List String) : Prop where
  record : ∀ m ∈ d.segments, ¬ Meets m (r ++ q)
  inside : seat.referenced = false → ∀ v p, now = some v → Reported d r v p → ¬ Meets p q

namespace Quiet

variable {d : DirtyPaths} {r : List String} {seat : Seat} {now : Option Value} {q : List String}

/-- A quiet position is not covered. -/
theorem uncovered (h : Quiet d r seat now q) : ¬ d.Covered r := by
  rintro ⟨m, hm, hmr⟩
  exact h.record m hm (.inl (hmr.trans (List.prefix_append r q)))

/-- Where nothing meets the position, nothing meets a path below it. -/
theorem below (h : Quiet d r seat now []) (q : List String) : Quiet d r seat now q := by
  refine ⟨fun m hm hmeets => h.record m hm ?_, fun hseat v p hv hp _ => ?_⟩
  · rw [List.append_nil]
    exact hmeets.of_append
  · exact h.inside hseat v p hv hp (.inr List.nil_prefix)

/-- What meets no path through an item, meets none in the item. -/
theorem item {items : List Value} {i : Nat}
    (h : Quiet d r seat (some (.list items)) (toString i :: q)) :
    Quiet d (r ++ [toString i]) seat.part items[i]? q := by
  refine ⟨fun m hm => ?_, fun hseat v p hv hp hmeets => ?_⟩
  · rw [List.append_assoc]
    exact h.record m hm
  · exact h.inside hseat _ _ rfl (.item hv hp) ((meets_append_iff [toString i]).mpr hmeets)

/-- What meets no path through a key, meets none in its value. -/
theorem entry {entries : List (String × Value)} {key : String}
    (h : Quiet d r seat (some (.dict entries)) (dottedSegments key ++ q)) :
    Quiet d (r ++ dottedSegments key) seat.part (Entries.get? entries key) q := by
  refine ⟨fun m hm => ?_, fun hseat v p hv hp hmeets => ?_⟩
  · rw [List.append_assoc]
    exact h.record m hm
  · exact h.inside hseat _ _ rfl (.entry hv hp) ((meets_append_iff _).mpr hmeets)

/-- What meets no path through an attribute, meets none in its value. -/
theorem inAttribute {doc : Document} {name : String} (hseat : seat.referenced = false)
    (h : Quiet d r seat (some (.document doc)) (dottedSegments name ++ q)) :
    Quiet doc.dirty (dottedSegments name) (doc.type.seat name) (Entries.get? doc.values name) q := by
  refine ⟨fun m hm => h.inside hseat _ _ rfl (.own h.uncovered hm), ?_⟩
  intro hreference v p hv hp hmeets
  exact h.inside hseat _ _ rfl (.inside h.uncovered hreference hv hp)
    ((meets_append_iff _).mpr hmeets)

end Quiet

namespace Followed

variable {d : DirtyPaths} {r : List String} {seat : Seat} {before now : Option Value}

/-- A followed value that no changed path meets is unchanged. -/
theorem unchanged (h : Followed d r seat before now) (hquiet : Quiet d r seat now []) :
    Unchanged seat before now := by
  induction h with
  | covered before now hcovered => exact absurd hcovered hquiet.uncovered
  | absent => exact .absent _
  | leaf hleaf => exact .leaf hleaf
  | list hstart _ ih =>
    exact .list hstart fun i => ih i (hquiet.below (toString i :: [])).item
  | dict hstart _ ih =>
    exact .dict hstart fun key => ih key (hquiet.below (dottedSegments key ++ [])).entry
  | @document d r seat old doc htype _ _ ih =>
    by_cases hseat : seat.referenced = true
    · exact .referenced hseat old doc
    · rw [Bool.not_eq_true] at hseat
      exact .document htype fun name =>
        ih name (Quiet.inAttribute hseat (hquiet.below (dottedSegments name ++ [])))

/-- What a view has opened is unchanged below, too, as long as no changed path meets it. -/
theorem unchanged_opened {steps : List ViewStep} {part : Seat} (hpart : part.Closed)
    (h : Unchanged (walk steps part none).1 (walk steps part none).2 now) :
    Unchanged .free none now := by
  obtain ⟨hclosed, hnone⟩ := walk_none steps hpart
  rw [hnone] at h
  rw [h.eq_none hclosed]
  exact .absent _

/-- **Where no changed path meets a path, what stands at its end is unchanged.** -/
theorem unchanged_walk : ∀ (steps : List ViewStep) {d : DirtyPaths} {r : List String} {seat : Seat}
    {before now : Option Value}, Followed d r seat before now →
    Quiet d r seat now (ViewStep.segments steps) →
    Unchanged (walk steps seat before).1 (walk steps seat before).2 (walk steps seat now).2
  | [], _, _, _, _, _, h, hquiet => h.unchanged hquiet
  | step :: rest, d, r, seat, before, now, h, hquiet => by
    cases h with
    | covered before now hcovered => exact absurd hcovered hquiet.uncovered
    | absent => cases step <;> exact .absent _
    | leaf hleaf =>
      rw [walk_leaf step rest seat hleaf]
      exact .absent _
    | @list _ _ _ _ olds items hstart hitems =>
      cases step with
      | key name => cases hstart with
        | same => exact .absent _
        | list hmissing _ => rcases hmissing with rfl | rfl <;> exact .absent _
      | item i =>
        rw [ViewStep.segments_item] at hquiet
        have hrest := unchanged_walk rest (hitems i) hquiet.item
        cases hstart with
        | same => exact hrest
        | list hmissing _ =>
          rcases hmissing with rfl | rfl <;> exact unchanged_opened seat.closed_part hrest
    | @dict _ _ _ _ olds entries hstart hkeys =>
      cases step with
      | item i => cases hstart with
        | same => exact .absent _
        | dict hmissing _ => rcases hmissing with rfl | rfl <;> exact .absent _
      | key name =>
        rw [ViewStep.segments_key] at hquiet
        have hrest := unchanged_walk rest (hkeys name) hquiet.entry
        cases hstart with
        | same => exact hrest
        | dict hmissing _ =>
          rcases hmissing with rfl | rfl <;> exact unchanged_opened seat.closed_part hrest
    | @document _ _ _ old doc htype _ hattributes =>
      cases step with
      | item i => exact .absent _
      | key name =>
        by_cases hseat : seat.referenced = true
        · simp only [walk, hseat, ↓reduceIte]
          exact .absent _
        · rw [Bool.not_eq_true] at hseat
          rw [ViewStep.segments_key] at hquiet
          have hrest := unchanged_walk rest (hattributes name) (Quiet.inAttribute hseat hquiet)
          simp only [walk, hseat, Bool.false_eq_true, ↓reduceIte]
          rwa [← htype]
termination_by structural steps => steps

end Followed

end DocumentMapper
