import DocumentMapper.Proofs.ContainerParts
import DocumentMapper.Proofs.FailedEntries
import DocumentMapper.Proofs.KeptByUpdates
import DocumentMapper.Proofs.ObjectPaths
import DocumentMapper.Proofs.PositionalSearch

/-!
# Laws of paths

What is written at a path is read there, what is read there is what a removal returns and what a
filter sees, and beside the path nothing changes. Two paths lead beside each other when at some
segment they name different entries of the same container (`Json.diverge`). In an array two segments
can be spelled differently and name the same item, in an object they cannot, so this depends on the
document and not on the texts alone.

There is one exception: writing an item behind the end of an array fills the array up, and the items
in between are null (`Json.pads`). An item that is removed leaves null, too.

A write goes down along its path and creates what is missing on the way, before it knows whether the
rest of the path can be written. It is carried out so in `Json.writeInPlace`, which also says what a
write that fails leaves behind: the document as it was, since nothing can get in the way below
something that was created.

## Main results

* `Json.getPath?_of_setSegments_of_diverge`, `Json.getPath?_withoutPath_of_diverge`: what is read
  beside a path that was written or removed;
* `Json.writeInPlace_eq`: a write that fails has changed nothing;
* `Json.getPath?_withoutPath_self`: what is read where something was removed;
* `Object.path_laws`: all of them for dotted paths.
-/

namespace DocumentMapper

open Text

namespace Json

/-! ### Paths that part -/

/-- Two paths part: they lead to the same container and name different entries of it. What is
missing and null have the entries of an empty object, which a write puts there. -/
def diverge : List String → List String → Json → Bool
  | s :: p, t :: q, j => if j.namesSame s t then diverge p q ((j.child? s).getD null) else true
  | _, _, _ => false

/-- Writing along the first path fills an array up, and the second one leads to an item in between. -/
def pads : List String → List String → Json → Bool
  | s :: p, t :: q, j =>
    if j.namesSame s t then pads p q ((j.child? s).getD null) else q.isEmpty && j.fillsUp s t
  | _, _, _ => false

/-- Paths that part have a first segment. -/
theorem exists_cons_of_diverge {p q : List String} {j : Json} (h : diverge p q j = true) :
    (∃ s p', p = s :: p') ∧ ∃ t q', q = t :: q' := by
  cases p with
  | nil => simp [diverge] at h
  | cons s p =>
    cases q with
    | nil => simp [diverge] at h
    | cons t q => exact ⟨⟨s, p, rfl⟩, t, q, rfl⟩

theorem diverge_opened (p q : List String) (j : Json) : diverge p q j.opened = diverge p q j := by
  cases j <;> cases p <;> cases q <;> rfl

theorem pads_opened (p q : List String) (j : Json) : pads p q j.opened = pads p q j := by
  cases j <;> cases p <;> cases q <;> rfl

/-- Where an array is filled up there was nothing. -/
theorem getPath?_of_pads {p q : List String} {j : Json} (h : pads p q j = true) :
    j.getPath? q = none := by
  induction p generalizing q j with
  | nil => simp [pads] at h
  | cons s p ih =>
    cases q with
    | nil => simp [pads] at h
    | cons t q =>
      rw [pads] at h
      split at h
      · rename_i hsame
        rw [getPath?, child?_of_namesSame hsame]
        cases hchild : j.child? s with
        | none => rfl
        | some part =>
          rw [hchild, Option.getD_some] at h
          exact ih h
      · rw [getPath?, child?_of_fillsUp (Bool.and_eq_true_iff.mp h).2, Option.bind_none]

/-! ### Writing -/

/-- **What is read beside a path that was written**: what was read there before, or null where an
array was filled up. -/
theorem getPath?_of_setSegments_of_diverge {path : String} {new : Json} {p q : List String}
    {j j' : Json} (hcontainer : j.isContainer = true)
    (hset : setSegments path new p j = .ok j') (hbeside : diverge p q j = true) :
    j'.getPath? q = if pads p q j then some null else j.getPath? q := by
  induction p generalizing q j j' with
  | nil => simp [diverge] at hbeside
  | cons s p ih =>
    obtain ⟨-, t, q, rfl⟩ := exists_cons_of_diverge hbeside
    obtain ⟨F, hchange, hbelow⟩ := exists_changePart path new s p j
    rw [hchange] at hset
    obtain ⟨part', hF, hchild⟩ := child?_changePart hcontainer hset
    simp only [diverge, pads, getPath?, hchild t] at hbeside ⊢
    by_cases hsame : j.namesSame s t = true
    · simp only [hsame, ↓reduceIte, Option.bind_some] at hbeside ⊢
      obtain ⟨⟨next, rest, rfl⟩, u, more, rfl⟩ := exists_cons_of_diverge hbeside
      rw [hbelow (List.cons_ne_nil next rest), writeBelow_eq] at hF
      split at hF
      case isFalse => cases hF
      rename_i hopened
      rw [ih hopened hF ((diverge_opened _ _ _).trans hbeside), pads_opened,
        getPath?_opened_of_ne_nil (List.cons_ne_nil u more), child?_of_namesSame hsame]
      cases j.child? s <;> rfl
    · rw [Bool.not_eq_true] at hsame
      simp only [hsame, Bool.false_eq_true, ↓reduceIte]
      by_cases hfills : j.fillsUp s t = true
      · simp only [hfills, ↓reduceIte, child?_of_fillsUp hfills, Option.bind_some, Option.bind_none,
          Bool.and_true]
        cases q <;> rfl
      · simp [hfills]

/-! ### Writing step by step -/

/-- The container with the part that a segment names in it: null if it was missing, behind other
nulls where an array is filled up. -/
def touch (path s : String) (j : Json) : Except StoreError Json :=
  changePart path s .ok j

/-- Writes along a path in place: every step first makes a container of what is missing or null, and
goes on in it. What was made so stays, also if a later step fails. -/
def writeInPlace (path : String) (new : Json) : List String → Json → Json × Option StoreError
  | [], j => (j, none)
  | s :: rest, j =>
    match touch path s j with
    | .error cause => (j, some cause)
    | .ok touched =>
      let (part, failure) :=
        if rest.isEmpty then (new, none)
        else
          let part := ((touched.child? s).getD null).opened
          if part.isContainer then writeInPlace path new rest part
          else (part, some (.scalarPart s path))
      (replacePart s part touched, failure)

/-- Looking up a part to write it makes a missing one null, and fails as any change of it does. -/
theorem changePart_eq (path s : String) (F : Json → Except StoreError Json) {j : Json}
    (hcontainer : j.isContainer = true) :
    changePart path s F j =
      (touch path s j).bind fun touched =>
        (F ((j.child? s).getD null)).map fun part => replacePart s part touched := by
  rcases isContainer_iff.mp hcontainer with ⟨es, rfl⟩ | ⟨items, rfl⟩
  · simp only [touch, changePart_object, child?]
    cases F ((Entries.get? es s).getD null) with
    | error cause => rfl
    | ok part =>
      exact congrArg (Except.ok ∘ object) (Entries.insert_insert es s _ part).symm
  · simp only [touch, changePart_array, child?]
    cases hs : position? s with
    | none => rfl
    | some i =>
      simp only [Option.bind_some]
      cases F (items[i]?.getD null) with
      | error cause => rfl
      | ok part =>
        have hreplace : replacePart s part (array (putItem items i (items[i]?.getD null))) =
            array (putItem items i part) := by
          rw [replacePart_array, hs]
          exact congrArg array (set_putItem items i _ part)
        exact congrArg Except.ok hreplace.symm

/-- A part that is there is looked up without a change. -/
theorem touch_of_child? (path : String) {s : String} {j part : Json} (h : j.child? s = some part) :
    touch path s j = .ok j :=
  changePart_child? h rfl

/-- What was looked up is there, and null if it was missing. -/
theorem child?_of_touch {path s : String} {j touched : Json} (hcontainer : j.isContainer = true)
    (h : touch path s j = .ok touched) :
    touched.child? s = some ((j.child? s).getD null) := by
  obtain ⟨part', hpart, hchild⟩ := child?_changePart hcontainer h
  cases hpart
  rw [hchild, if_pos (namesSame_self j s)]

/-- Any path can be written into an object without entries. -/
theorem exists_setSegments_nil (path : String) (new : Json) {p : List String} (hne : p ≠ []) :
    ∃ es, setSegments path new p (object []) = .ok (object es) := by
  obtain ⟨es, hwritten⟩ := (creatable_nil hne).written new
  exact ⟨es, hwritten.setSegments path⟩

/-- Where a write fails below a part, the part was there before. -/
theorem replacePart_of_writeBelow_error {path s : String} {new j touched : Json} {p : List String}
    {cause : StoreError} (hne : p ≠ []) (htouch : touch path s j = .ok touched)
    (h : writeBelow path s new p ((j.child? s).getD null) = .error cause) :
    replacePart s ((j.child? s).getD null).opened touched = j := by
  have hempty : writeBelow path s new p null ≠ .error cause := by
    obtain ⟨es, hes⟩ := exists_setSegments_nil path new hne
    intro hfail
    rw [writeBelow, hes] at hfail
    cases hfail
  cases hpart : j.child? s with
  | none =>
    rw [hpart] at h
    exact absurd h hempty
  | some part =>
    rw [hpart, Option.getD_some] at h
    rw [Option.getD_some]
    obtain rfl := Except.ok.inj (htouch.symm.trans (touch_of_child? path hpart))
    cases part with
    | null => exact absurd h hempty
    | bool | whole | float | string | object | array => exact replacePart_child? hpart

/-- **A write that fails has changed nothing**, although it creates what is missing before it knows
the rest of the path. -/
theorem writeInPlace_eq (path : String) (new : Json) {p : List String} (hne : p ≠ []) {j : Json}
    (hcontainer : j.isContainer = true) :
    writeInPlace path new p j =
      match setSegments path new p j with
      | .ok j' => (j', none)
      | .error cause => (j, some cause) := by
  induction p generalizing j with
  | nil => exact absurd rfl hne
  | cons s rest ih =>
    rw [writeInPlace]
    cases rest with
    | nil =>
      have hset : setSegments path new [s] j = changePart path s (fun _ => .ok new) j := rfl
      rw [hset, changePart_eq path s (fun _ => .ok new) hcontainer]
      cases touch path s j <;> rfl
    | cons next rest =>
      rw [setSegments_cons_cons, changePart_eq path s _ hcontainer]
      cases htouch : touch path s j with
      | error cause => rfl
      | ok touched =>
        simp only [child?_of_touch hcontainer htouch, Option.getD_some, List.isEmpty_cons,
          Bool.false_eq_true, ↓reduceIte, Except.bind]
        have hkept : ∀ cause,
            writeBelow path s new (next :: rest) ((j.child? s).getD null) = .error cause →
              replacePart s ((j.child? s).getD null).opened touched = j := fun _ =>
          replacePart_of_writeBelow_error (List.cons_ne_nil next rest) htouch
        rw [writeBelow_eq] at hkept ⊢
        by_cases hopened : ((j.child? s).getD null).opened.isContainer = true
        · simp only [hopened, ↓reduceIte, ih (List.cons_ne_nil next rest) hopened] at hkept ⊢
          cases hset : setSegments path new (next :: rest) ((j.child? s).getD null).opened with
          | ok part => rfl
          | error cause => exact congrArg (·, some cause) (hkept cause hset)
        · simp only [hopened] at hkept ⊢
          exact congrArg (·, some _) (hkept _ rfl)

/-! ### Removing -/

/-- Removing a part leaves the others alone. -/
theorem child?_withoutPath_singleton {j : Json} {s t : String} (h : j.namesSame s t = false) :
    (withoutPath [s] j).child? t = j.child? t := by
  cases hchild : j.child? s with
  | none => rw [withoutPath_singleton_none hchild]
  | some part =>
    rcases isContainer_of_child? hchild with ⟨es, rfl⟩ | ⟨items, rfl⟩
    · have hst : s ≠ t := by simpa [namesSame] using h
      rw [withoutPath_entry hchild, child?, child?, Entries.get?_erase_of_ne es hst]
    · rw [withoutPath_item hchild, child?_replacePart_of_child? hchild, h]
      rfl

/-- **What is read beside a path that was removed** is what was read there before. -/
theorem getPath?_withoutPath_of_diverge {p q : List String} {j : Json}
    (hbeside : diverge p q j = true) : (withoutPath p j).getPath? q = j.getPath? q := by
  induction p generalizing q j with
  | nil => simp [diverge] at hbeside
  | cons s p ih =>
    obtain ⟨-, t, q, rfl⟩ := exists_cons_of_diverge hbeside
    rw [diverge] at hbeside
    cases p with
    | nil =>
      have hother : j.namesSame s t = false := by
        by_contra hsame
        rw [Bool.not_eq_false] at hsame
        simp [hsame, diverge] at hbeside
      rw [getPath?, getPath?, child?_withoutPath_singleton hother]
    | cons next p =>
      rw [withoutPath_cons_cons]
      cases hchild : j.child? s with
      | none => rfl
      | some part =>
        simp only [getPath?, child?_replacePart_of_child? hchild]
        by_cases hsame : j.namesSame s t = true
        · rw [if_pos hsame, hchild] at hbeside
          rw [if_pos hsame, child?_of_namesSame hsame, hchild]
          exact ih hbeside
        · rw [if_neg hsame]

/-- Whether a path leads to an item of an array, if it leads anywhere. -/
def endsInArray (p : List String) (j : Json) : Bool :=
  (j.getPath? p.dropLast).any fun parent => parent.asArray?.isSome

/-- **What is read at a path that was removed**: null for an item of an array, and else nothing. -/
theorem getPath?_withoutPath_self {p : List String} (hne : p ≠ []) {j : Json} (hj : j.WellFormed) :
    (withoutPath p j).getPath? p =
      (j.getPath? p).bind fun _ => if endsInArray p j then some null else none := by
  induction p generalizing j with
  | nil => exact absurd rfl hne
  | cons s p ih =>
    cases hchild : j.child? s with
    | none =>
      have hnone : j.getPath? (s :: p) = none := by rw [getPath?, hchild, Option.bind_none]
      rw [withoutPath_of_getPath?_none hnone, hnone, Option.bind_none]
    | some part =>
      cases p with
      | nil =>
        have hends : endsInArray [s] j = j.asArray?.isSome := rfl
        rw [getPath?_of_child? hchild, getPath?, Option.bind_some, hends]
        rcases isContainer_of_child? hchild with ⟨es, rfl⟩ | ⟨items, rfl⟩
        · rw [withoutPath_entry hchild, getPath?, child?,
            Entries.get?_erase (wellFormed_object.mp hj).1, if_pos rfl]
          rfl
        · rw [withoutPath_item hchild, getPath?, child?_replacePart_of_child? hchild,
            if_pos (namesSame_self _ s)]
          rfl
      | cons next p =>
        have hreplaced : (withoutPath (s :: next :: p) j).child? s =
            some (withoutPath (next :: p) part) := by
          rw [withoutPath_cons_cons, hchild]
          exact (child?_replacePart_of_child? hchild _ s).trans (if_pos (namesSame_self j s))
        have hends : endsInArray (s :: next :: p) j = endsInArray (next :: p) part :=
          congrArg (Option.any _) (getPath?_of_child? hchild _)
        rw [getPath?_of_child? hreplaced, getPath?_of_child? hchild, hends]
        exact ih (List.cons_ne_nil next p) (wellFormed_child? hj hchild)

/-- What is removed is what is read. -/
theorem map_fst_removeSegments? {p : List String} (hne : p ≠ []) (j : Json) :
    (removeSegments? p j).map Prod.fst = j.getPath? p := by
  induction p generalizing j with
  | nil => exact absurd rfl hne
  | cons s p ih =>
    cases p with
    | nil =>
      cases j with
      | object es => simp [removeSegments?, getPath?, child?, Function.comp_def]
      | array items =>
        cases hs : position? s with
        | none => simp [removeSegments?, getPath?, child?, hs]
        | some i => cases hitem : items[i]? <;> simp [removeSegments?, getPath?, child?, hs, hitem]
      | null | bool | whole | float | string => rfl
    | cons next p =>
      cases hchild : j.child? s with
      | none => simp [removeSegments?, getPath?, hchild]
      | some part =>
        rw [getPath?_of_child? hchild, ← ih (List.cons_ne_nil next p)]
        cases hremove : removeSegments? (next :: p) part <;> simp [removeSegments?, hchild, hremove]

end Json

/-! ### Dotted paths -/

namespace Object

/-- Whether two dotted paths part, and name different entries of a container there. -/
def diverge (doc : Object) (path other : String) : Bool :=
  Json.diverge (dottedSegments path) (dottedSegments other) (.object doc)

/-- Whether writing at a dotted path fills up an array with null at another one. -/
def pads (doc : Object) (path other : String) : Bool :=
  Json.pads (dottedSegments path) (dottedSegments other) (.object doc)

/-- Whether a dotted path leads to an item of an array, if it leads anywhere. -/
def endsInArray (doc : Object) (path : String) : Bool :=
  Json.endsInArray (dottedSegments path) (.object doc)

/-- Writes at a dotted path in place, step by step. -/
def writeInPlace (doc : Object) (path : String) (new : Json) : Applied :=
  match Json.writeInPlace path new (dottedSegments path) (.object doc) with
  | (.object es, failure) => ⟨es, failure⟩
  | (_, failure) => ⟨doc, failure⟩

/-- Writing in place makes the change, or else leaves the document as it was. -/
theorem writeInPlace_eq (doc : Object) (path : String) (new : Json) :
    doc.writeInPlace path new = .ofExcept doc (doc.setPath path new) := by
  unfold writeInPlace setPath
  rw [Json.writeInPlace_eq path new (dottedSegments_ne_nil path) rfl]
  cases hset : Json.setSegments path new (dottedSegments path) (.object doc) with
  | error cause => rfl
  | ok j =>
    obtain ⟨es, rfl⟩ := object_of_setSegments hset
    rfl

/-- What a removal returns is what is read. -/
theorem map_fst_removePath? (doc : Object) (path : String) :
    (doc.removePath? path).map Prod.fst = doc.getPath? path := by
  have hsegments := Json.map_fst_removeSegments? (dottedSegments_ne_nil path) (.object doc)
  rw [getPath?, ← hsegments, removePath?]
  cases hremove : Json.removeSegments? (dottedSegments path) (.object doc) with
  | none => rfl
  | some removed =>
    obtain ⟨v, rest⟩ := removed
    obtain ⟨fs, hfs⟩ := Json.object_of_withoutPath (dottedSegments path) doc
    obtain rfl : rest = .object fs := by simpa [Json.withoutPath, hremove] using hfs
    rfl

/-- **The laws of dotted paths.** What was written is read back, and beside the path is read what was
read there before, or null where there was nothing and an array was filled up. A write that fails
leaves the document as it was. A removal returns what was read. After it nothing is read at the path,
or null if it was an item of an array, and beside the path nothing has changed. Where something is
read, a filter sees that and nothing else. -/
theorem path_laws (doc : Object) (hdoc : doc.WellFormed) (path : String) (new : Json) :
    (∀ changed, doc.setPath path new = .ok changed →
      changed.getPath? path = some new ∧
      ∀ other, doc.diverge path other = true →
        (changed.getPath? other =
          if doc.pads path other then some .null else doc.getPath? other) ∧
        (doc.pads path other = true → doc.getPath? other = none)) ∧
    doc.writeInPlace path new = .ofExcept doc (doc.setPath path new) ∧
    (doc.removePath? path).map Prod.fst = doc.getPath? path ∧
    ((doc.removePath path).getPath? path =
      (doc.getPath? path).bind fun _ => if doc.endsInArray path then some .null else none) ∧
    (∀ other, doc.diverge path other = true →
      (doc.removePath path).getPath? other = doc.getPath? other) ∧
    ∀ v, doc.getPath? path = some v → doc.lookup path = [v] := by
  refine ⟨fun changed hset => ⟨getPath?_of_setPath hset, fun other hbeside => ?_⟩,
    writeInPlace_eq doc path new, map_fst_removePath? doc path, ?_, fun other hbeside => ?_,
    fun v hv => ?_⟩
  · exact ⟨Json.getPath?_of_setSegments_of_diverge rfl (setPath_eq_ok.mp hset) hbeside,
      Json.getPath?_of_pads⟩
  · rw [getPath?, object_removePath]
    exact Json.getPath?_withoutPath_self (dottedSegments_ne_nil path) hdoc
  · rw [getPath?, object_removePath]
    exact Json.getPath?_withoutPath_of_diverge hbeside
  · have hreach := Json.reach_of_getPath? hv []
    rwa [List.append_nil] at hreach

/-- A tray with two cups, and a key of it that is spelled like a position. -/
def laidTray : Object :=
  [("cups", .array [.object [("size", .string "small")], .string "broken"]),
    ("lids", .object [("1", .string "glass"), ("+1", .string "tin")])]

/-- A cup behind the end of the array, spelled with a sign, has null in front of it. Removing the
second one leaves null. Two lids whose keys are the same number are two lids. -/
theorem path_laws_tray :
    laidTray.WellFormed ∧
      (∃ changed, laidTray.setPath "cups.+4.size" (.string "large") = .ok changed ∧
        changed.getPath? "cups.+4.size" = some (.string "large") ∧
        changed.getPath? "cups.03" = some .null ∧
        changed.getPath? "cups.0.size" = some (.string "small")) ∧
      (laidTray.removePath "cups.01").getPath? "cups.01" = some .null ∧
      (laidTray.removePath "lids.+1").getPath? "lids.+1" = none ∧
      (laidTray.removePath "lids.+1").getPath? "lids.1" = some (.string "glass") := by
  have hdoc : laidTray.WellFormed := by
    simp [laidTray, Object.WellFormed, Json.WellFormed]
  obtain ⟨hwritten, -, -, -, -, -⟩ := path_laws laidTray hdoc "cups.+4.size" (.string "large")
  obtain ⟨-, -, -, hcup, -, -⟩ := path_laws laidTray hdoc "cups.01" .null
  obtain ⟨-, -, -, hlid, hbeside, -⟩ := path_laws laidTray hdoc "lids.+1" .null
  have hset : ∃ changed, laidTray.setPath "cups.+4.size" (.string "large") = .ok changed := ⟨_, rfl⟩
  obtain ⟨changed, hset⟩ := hset
  obtain ⟨hself, hothers⟩ := hwritten changed hset
  exact ⟨hdoc, ⟨changed, hset, hself, (hothers "cups.03" rfl).1.trans rfl,
    (hothers "cups.0.size" rfl).1.trans rfl⟩, hcup.trans rfl, hlid.trans rfl,
    (hbeside "lids.1" rfl).trans rfl⟩

end Object

end DocumentMapper
