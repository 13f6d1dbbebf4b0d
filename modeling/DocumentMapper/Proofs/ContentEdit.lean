import DocumentMapper.Proofs.Content
import DocumentMapper.Text.Numeral

/-!
# Setting and removing along a path

`Edit.at` sets or removes what stands at the end of a path, on contents instead of stored values.
As on stored values, setting creates missing objects, takes null for a missing object, fills arrays
up with null and fails below a scalar; removing never fails and leaves null in an array.

Two paths are apart when at some step they name parts that cannot be the same part of anything,
neither under one key nor at one position.

## Main results

* `Edit.at_comm`: edits at paths that are apart can be made in either order;
* `runEdits_comm`: so can sequences of such edits;
* `Edit.valueAt_at`: an edit leaves alone what stands at paths that are apart from its own.
-/

namespace DocumentMapper

open Text

/-- Whether two segments never name the same part of a value. -/
def NeverSame (s t : String) : Prop :=
  s ≠ t ∧ (position? s = none ∨ position? s ≠ position? t)

/-- Whether two paths part at some step for good. -/
def Apart : List String → List String → Prop
  | s :: p, t :: q => NeverSame s t ∨ Apart p q
  | _, _ => False

namespace Content

/-- The object without entries. -/
def noEntries : Content :=
  .object fun _ => none

/-- The items with something stored at a position: a value, before which null fills up what is
missing, or null in place of an item. -/
def storeItem (items : List Content) (i : Nat) : Option Content → List Content
  | some v =>
    if i < items.length then items.set i v
    else items ++ List.replicate (i - items.length) null ++ [v]
  | none => items.set i null

/-- Whether a change stores nothing where there is nothing. -/
def storesNothing (f : Option Content → Option (Option Content)) : Bool :=
  match f none with
  | some none => true
  | _ => false

/-- A value that cannot have the part in question, unless a change would store something there. -/
def unlessStored (v : Content) (f : Option Content → Option (Option Content)) : Option Content :=
  if storesNothing f then some v else none

/-- The value with the part named by a segment changed by `f`, which sees the part, if there is one,
and says what to store in its place, if anything. -/
def change (segment : String) (f : Option Content → Option (Option Content)) :
    Content → Option Content
  | object entry =>
    (f (entry segment)).map fun part => object fun k => if k = segment then part else entry k
  | array items =>
    match position? segment with
    | some i => (f items[i]?).map fun part => array (storeItem items i part)
    | none => unlessStored (array items) f
  | v => unlessStored v f

theorem change_object (segment : String) (f : Option Content → Option (Option Content))
    (entry : String → Option Content) :
    (object entry).change segment f =
      (f (entry segment)).map fun part => object fun k => if k = segment then part else entry k :=
  rfl

theorem change_array (segment : String) (f : Option Content → Option (Option Content))
    (items : List Content) :
    (array items).change segment f =
      match position? segment with
      | some i => (f items[i]?).map fun part => array (storeItem items i part)
      | none => unlessStored (array items) f :=
  rfl

/-- What a path is written into: a missing value and null become an object. -/
def opened? : Option Content → Option Content
  | none => some noEntries
  | some null => some noEntries
  | some (object entry) => some (object entry)
  | some (array items) => some (array items)
  | some _ => none

end Content

/-- What is done at the end of a path. -/
inductive Edit where
  | set (v : Content)
  | unset

/-- Makes an edit along a path. Nothing comes out where the edit fails. -/
def Edit.at (edit : Edit) : List String → Option Content → Option (Option Content)
  | [], _ =>
    match edit with
    | set v => some (some v)
    | unset => some none
  | segment :: rest, part =>
    match edit with
    | set _ => (Content.opened? part).bind fun v => (v.change segment (edit.at rest)).map some
    | unset =>
      match part with
      | none => some none
      | some v => (v.change segment (edit.at rest)).map some

/-- Makes several edits, one after the other. -/
def runEdits : List (List String × Edit) → Option Content → Option (Option Content)
  | [], part => some part
  | (path, edit) :: rest, part => (edit.at path part).bind (runEdits rest)

namespace Content

/-! ### Items -/

theorem length_storeItem (items : List Content) (i : Nat) (part : Option Content) :
    (storeItem items i part).length =
      if i < items.length ∨ part = none then items.length else i + 1 := by
  cases part with
  | none => simp [storeItem]
  | some v =>
    by_cases h : i < items.length
    · simp [storeItem, h]
    · simp [storeItem, h]
      omega

/-- What stands at a position after something was stored at another one or the same. -/
theorem getElem?_storeItem (items : List Content) (i : Nat) (part : Option Content) (k : Nat) :
    (storeItem items i part)[k]? =
      if k = i then (if i < items.length then some (part.getD null) else part)
      else if k < items.length then items[k]?
      else if k < i then part.map fun _ => null
      else none := by
  cases part with
  | none =>
    simp only [storeItem, List.getElem?_set, Option.getD_none, Option.map_none]
    grind
  | some v =>
    by_cases h : i < items.length
    · simp only [storeItem, h, ↓reduceIte, List.getElem?_set, Option.getD_some, Option.map_some]
      grind
    · simp only [storeItem, h, ↓reduceIte, Option.map_some]
      grind

theorem storeItem_of_lt {items : List Content} {i : Nat} (h : i < items.length)
    (part : Option Content) : storeItem items i part = items.set i (part.getD null) := by
  cases part <;> simp [storeItem, h]

/-- Storing at different positions can be done in either order. -/
theorem storeItem_comm {i j : Nat} (hij : i ≠ j) (items : List Content) (a b : Option Content) :
    storeItem (storeItem items i a) j b = storeItem (storeItem items j b) i a := by
  apply List.ext_getElem?
  intro k
  simp only [getElem?_storeItem, length_storeItem]
  cases a <;> cases b <;> grind

/-- Storing at a position twice leaves what was stored last. -/
theorem storeItem_storeItem {items : List Content} {i : Nat} {a b : Option Content}
    (hb : b = none → a = none) :
    storeItem (storeItem items i a) i b = storeItem items i b := by
  apply List.ext_getElem?
  intro k
  simp only [getElem?_storeItem, length_storeItem]
  cases a <;> cases b <;> grind

/-! ### Changing two parts -/

/-- A change takes null for a missing value, as far as what it stores is concerned. -/
def NullAlike (f : Option Content → Option (Option Content)) : Prop :=
  (f (some null)).map (·.getD null) = (f none).map (·.getD null)

/-- A change stores nothing only where there was nothing. -/
def KeepsParts (f : Option Content → Option (Option Content)) : Prop :=
  ∀ part, f part = some none → part = none

/-- A change at one position sees the same after something was stored at another one. -/
theorem map_storeItem_storeItem {f : Option Content → Option (Option Content)} (hf : NullAlike f)
    {i j : Nat} (hij : i ≠ j) (items : List Content) (a : Option Content) :
    (f (storeItem items i a)[j]?).map (storeItem (storeItem items i a) j) =
      (f items[j]?).map (storeItem (storeItem items i a) j) := by
  by_cases hj : j < items.length
  · have hsame : (storeItem items i a)[j]? = items[j]? := by
      rw [getElem?_storeItem]
      simp [hij.symm, hj]
    rw [hsame]
  · have hnone : items[j]? = none := List.getElem?_eq_none (by omega)
    by_cases hpad : j < i ∧ a ≠ none
    · -- The position was filled up with null, which is stored over in place.
      obtain ⟨v, rfl⟩ := Option.ne_none_iff_exists'.mp hpad.2
      have hnull : (storeItem items i (some v))[j]? = some null := by
        rw [getElem?_storeItem]
        simp [hij.symm, hj, hpad.1]
      have hlt : j < (storeItem items i (some v)).length := by
        rw [length_storeItem]
        simp only [reduceCtorEq, or_false]
        split <;> omega
      have hset : storeItem (storeItem items i (some v)) j =
          (fun w => (storeItem items i (some v)).set j w) ∘ fun part => part.getD null := by
        funext part
        exact storeItem_of_lt hlt part
      rw [hnull, hnone, hset, ← Option.map_map, ← Option.map_map, hf]
    · have hsame : (storeItem items i a)[j]? = none := by
        rw [getElem?_storeItem]
        cases a with
        | none => simp [hij.symm, hj]
        | some v =>
          have : ¬ j < i := fun h => hpad ⟨h, by simp⟩
          simp [hij.symm, hj, this]
      rw [hsame, hnone]

/-- Where there is no part to change, a change only says whether it would store something. -/
theorem unlessStored_bind (v : Content) (f : Option Content → Option (Option Content))
    (k : Content → Option Content) :
    (unlessStored v f).bind k = if storesNothing f then k v else none := by
  unfold unlessStored
  split <;> rfl

/-- A change where the value cannot have the part can be made before or after any other change that
leaves it so. -/
theorem unlessStored_comm {v : Content} {s t : String}
    {f g : Option Content → Option (Option Content)}
    (hs : ∀ w, v.change t g = some w → w.change s f = unlessStored w f)
    (hv : v.change s f = unlessStored v f) :
    (v.change s f).bind (change t g) = (v.change t g).bind (change s f) := by
  rw [hv, unlessStored_bind]
  rcases hw : v.change t g with _ | w
  · simp
  · simp [hs w hw, unlessStored]

/-- A value that cannot have the part is left as it is. -/
theorem same_of_unlessStored {v w : Content} {f : Option Content → Option (Option Content)}
    (h : unlessStored v f = some w) : w = v := by
  unfold unlessStored at h
  split at h
  · exact (Option.some.inj h).symm
  · cases h

/-- A change leaves an array an array. -/
theorem array_of_change {items : List Content} {w : Content} {s : String}
    {f : Option Content → Option (Option Content)} (h : (array items).change s f = some w) :
    ∃ others, w = array others := by
  rw [change_array] at h
  split at h
  · obtain ⟨part, -, rfl⟩ := Option.map_eq_some_iff.mp h
    exact ⟨_, rfl⟩
  · exact ⟨items, same_of_unlessStored h⟩

/-- Changes at two parts of an object can be made in either order. -/
theorem change_comm_object {s t : String} {f g : Option Content → Option (Option Content)}
    (h : s = t → ∀ part, (f part).bind g = (g part).bind f) (entry : String → Option Content) :
    ((object entry).change s f).bind (change t g) =
      ((object entry).change t g).bind (change s f) := by
  by_cases hst : s = t
  · subst hst
    have honce : ∀ f g : Option Content → Option (Option Content),
        ((object entry).change s f).bind (change s g) =
          ((f (entry s)).bind g).map fun part => object fun k => if k = s then part else entry k := by
      intro f g
      rw [change_object]
      rcases f (entry s) with _ | part
      · rfl
      · simp only [Option.map_some, Option.bind_some, change_object, ↓reduceIte]
        congr 1
        funext part
        congr 1
        funext k
        by_cases hk : k = s <;> simp [hk]
    rw [honce, honce, h rfl]
  · rw [change_object, change_object]
    rcases hfs : f (entry s) with _ | a <;> rcases hgt : g (entry t) with _ | b
    · rfl
    · simp [change_object, hst, hfs]
    · simp [change_object, Ne.symm hst, hgt]
    · simp only [Option.map_some, Option.bind_some, change_object, hst, Ne.symm hst, ↓reduceIte, hfs,
        hgt, Option.some.injEq, object.injEq]
      funext k
      by_cases hks : k = s <;> by_cases hkt : k = t <;> simp_all

/-- Changes at two positions of an array can be made in either order. -/
theorem change_comm_items {i j : Nat} {f g : Option Content → Option (Option Content)}
    (hf : NullAlike f) (hg : NullAlike g)
    (h : i = j → (∀ part, (f part).bind g = (g part).bind f) ∧ KeepsParts f ∧ KeepsParts g)
    (items : List Content) :
    ((f items[i]?).bind fun a =>
        (g (storeItem items i a)[j]?).map (storeItem (storeItem items i a) j)) =
      (g items[j]?).bind fun b =>
        (f (storeItem items j b)[i]?).map (storeItem (storeItem items j b) i) := by
  by_cases hij : i = j
  · subst hij
    obtain ⟨hcomm, hkf, hkg⟩ := h rfl
    have honce : ∀ f g : Option Content → Option (Option Content), KeepsParts f → KeepsParts g →
        ((f items[i]?).bind fun a =>
          (g (storeItem items i a)[i]?).map (storeItem (storeItem items i a) i)) =
          ((f items[i]?).bind g).map (storeItem items i) := by
      intro f g hkf hkg
      rcases ha : f items[i]? with _ | a
      · rfl
      · have hread : (storeItem items i a)[i]? = a := by
          rw [getElem?_storeItem]
          cases a with
          | none =>
            have := hkf _ ha
            have hi : ¬ i < items.length := by simpa using this
            simp [hi]
          | some v => simp
        simp only [Option.bind_some, hread]
        rcases hb : g a with _ | b
        · rfl
        · simp only [Option.map_some, Option.some.injEq]
          refine storeItem_storeItem fun hnone => ?_
          subst hnone
          exact hkg _ hb
    rw [honce f g hkf hkg, honce g f hkg hkf, hcomm]
  · simp only [map_storeItem_storeItem hg hij, map_storeItem_storeItem hf (Ne.symm hij)]
    rcases f items[i]? with _ | a <;> rcases g items[j]? with _ | b <;>
      simp [storeItem_comm hij]

/-- **Changes at two parts can be made in either order**: the parts are never the same, or else the
two changes can themselves be made in either order. -/
theorem change_comm {s t : String} {f g : Option Content → Option (Option Content)}
    (hf : NullAlike f) (hg : NullAlike g)
    (h : NeverSame s t ∨
      ((∀ part, (f part).bind g = (g part).bind f) ∧ KeepsParts f ∧ KeepsParts g)) (v : Content) :
    (v.change s f).bind (change t g) = (v.change t g).bind (change s f) := by
  cases v with
  | object entry =>
    refine change_comm_object (fun hst => ?_) entry
    exact (h.resolve_left fun hnever => hnever.1 hst).1
  | array items =>
    cases hs : position? s with
    | none =>
      have hunless : ∀ others, (array others).change s f = unlessStored (array others) f := by
        simp [change_array, hs]
      refine unlessStored_comm (fun w hw => ?_) (hunless items)
      obtain ⟨others, rfl⟩ := array_of_change hw
      exact hunless others
    | some i =>
      cases ht : position? t with
      | none =>
        have hunless : ∀ others, (array others).change t g = unlessStored (array others) g := by
          simp [change_array, ht]
        refine (unlessStored_comm (fun w hw => ?_) (hunless items)).symm
        obtain ⟨others, rfl⟩ := array_of_change hw
        exact hunless others
      | some j =>
        have hitems := change_comm_items (i := i) (j := j) hf hg (fun hij => ?_) items
        · have := congrArg (Option.map array) hitems
          simpa [change_array, hs, ht, Option.map_bind, Function.comp_def, Option.bind_map] using this
        · refine h.resolve_left fun hnever => ?_
          rcases hnever.2 with hnone | hne
          · rw [hs] at hnone
            cases hnone
          · exact hne (by rw [hs, ht, hij])
  | null => exact unlessStored_comm (fun w hw => by rw [same_of_unlessStored hw]; rfl) rfl
  | bool b => exact unlessStored_comm (fun w hw => by rw [same_of_unlessStored hw]; rfl) rfl
  | whole n => exact unlessStored_comm (fun w hw => by rw [same_of_unlessStored hw]; rfl) rfl
  | float x => exact unlessStored_comm (fun w hw => by rw [same_of_unlessStored hw]; rfl) rfl
  | string s => exact unlessStored_comm (fun w hw => by rw [same_of_unlessStored hw]; rfl) rfl

end Content

namespace Edit

open Content

/-! ### Edits along paths -/

/-- Removing does nothing where there is nothing. -/
@[simp] theorem at_unset_none (path : List String) : unset.at path none = some none := by
  cases path <;> rfl

/-- An edit takes null for a missing value. -/
theorem nullAlike_at (edit : Edit) (path : List String) : NullAlike (edit.at path) := by
  cases path with
  | nil => cases edit <;> rfl
  | cons segment rest =>
    cases edit with
    | set v => rfl
    | unset => cases rest <;> rfl

/-- An edit below a part does not make the part disappear. -/
theorem keepsParts_at (edit : Edit) (segment : String) (rest : List String) :
    KeepsParts (edit.at (segment :: rest)) := by
  intro part h
  cases edit with
  | set v =>
    simp only [Edit.at] at h
    obtain ⟨w, -, hw⟩ := Option.bind_eq_some_iff.mp h
    obtain ⟨w', -, hw'⟩ := Option.map_eq_some_iff.mp hw
    cases hw'
  | unset =>
    cases part with
    | none => rfl
    | some v =>
      simp only [Edit.at] at h
      obtain ⟨w, -, hw⟩ := Option.map_eq_some_iff.mp h
      cases hw

/-- What an edit below a part makes of a value with parts. -/
theorem at_cons_of_opened (edit : Edit) {v : Content} (hv : opened? (some v) = some v)
    (segment : String) (rest : List String) :
    edit.at (segment :: rest) (some v) = (v.change segment (edit.at rest)).map some := by
  cases edit with
  | set w => simp [Edit.at, hv]
  | unset => rfl

/-- A change of a value with parts leaves it one. -/
theorem opened?_of_change {v w : Content} {segment : String}
    {f : Option Content → Option (Option Content)} (hv : opened? (some v) = some v)
    (h : v.change segment f = some w) : opened? (some w) = some w := by
  cases v with
  | object entry =>
    rw [change_object] at h
    obtain ⟨part, -, rfl⟩ := Option.map_eq_some_iff.mp h
    rfl
  | array items =>
    obtain ⟨others, rfl⟩ := array_of_change h
    rfl
  | null => simp [opened?, noEntries] at hv
  | bool b => simp [opened?] at hv
  | whole n => simp [opened?] at hv
  | float x => simp [opened?] at hv
  | string s => simp [opened?] at hv

/-- Two edits below parts of a value with parts are two changes. -/
theorem at_bind_at (a b : Edit) {v : Content} (hv : opened? (some v) = some v) (s t : String)
    (p q : List String) :
    (a.at (s :: p) (some v)).bind (b.at (t :: q)) =
      ((v.change s (a.at p)).bind (change t (b.at q))).map some := by
  rw [at_cons_of_opened a hv]
  rcases hw : v.change s (a.at p) with _ | w
  · rfl
  · exact at_cons_of_opened b (opened?_of_change hv hw) t q

/-- Setting below a missing value or null is setting below an object without entries. -/
theorem at_set_missing {part : Option Content} (hpart : part = none ∨ part = some null)
    (v : Content) (segment : String) (rest : List String) :
    (set v).at (segment :: rest) part = (set v).at (segment :: rest) (some noEntries) := by
  rcases hpart with rfl | rfl <;> rfl

/-- Removing below a missing value or null does nothing. -/
theorem at_unset_missing {part : Option Content} (hpart : part = none ∨ part = some null)
    (segment : String) (rest : List String) :
    unset.at (segment :: rest) part = some part := by
  rcases hpart with rfl | rfl
  · rfl
  · cases rest <;> rfl

/-- Removing below an object without entries does nothing. -/
theorem at_unset_noEntries (segment : String) (rest : List String) :
    unset.at (segment :: rest) (some noEntries) = some (some noEntries) := by
  cases rest <;> simp [Edit.at, noEntries, change_object]

/-- Below a value without parts setting fails and removing does nothing. -/
theorem at_cons_of_not_opened {v : Content} (hv : opened? (some v) = none) (edit : Edit)
    (segment : String) (rest : List String) :
    edit.at (segment :: rest) (some v) =
      match edit with
      | set _ => none
      | unset => some (some v) := by
  cases edit with
  | set w => simp [Edit.at, hv]
  | unset =>
    cases v <;> cases rest <;> first | rfl | cases hv

/-- A value has parts, or is null, or can have no parts. -/
theorem opened?_cases (v : Content) :
    opened? (some v) = some v ∨ v = null ∨ opened? (some v) = none := by
  cases v <;> simp [opened?]

/-- **Edits at paths that are apart can be made in either order.** -/
theorem at_comm (a b : Edit) {p q : List String} (h : Apart p q) (part : Option Content) :
    (a.at p part).bind (b.at q) = (b.at q part).bind (a.at p) := by
  induction p generalizing q part with
  | nil => simp [Apart] at h
  | cons s p ih =>
    cases q with
    | nil => simp [Apart] at h
    | cons t q =>
      -- Below the first segments the edits are made at different parts or commute themselves.
      have hparts : ∀ v : Content, (v.change s (a.at p)).bind (change t (b.at q)) =
          (v.change t (b.at q)).bind (change s (a.at p)) := by
        refine change_comm (nullAlike_at a p) (nullAlike_at b q) ?_
        rcases h with hnever | hrest
        · exact .inl hnever
        · refine .inr ⟨fun part => ih hrest part, ?_, ?_⟩
          · cases p with
            | nil => simp [Apart] at hrest
            | cons s' p => exact keepsParts_at a s' p
          · cases p with
            | nil => simp [Apart] at hrest
            | cons s' p =>
              cases q with
              | nil => simp [Apart] at hrest
              | cons t' q => exact keepsParts_at b t' q
      have hopened : ∀ v : Content, opened? (some v) = some v →
          (a.at (s :: p) (some v)).bind (b.at (t :: q)) =
            (b.at (t :: q) (some v)).bind (a.at (s :: p)) := by
        intro v hv
        rw [at_bind_at a b hv, at_bind_at b a hv, hparts]
      have hmissing : ∀ part : Option Content, part = none ∨ part = some null →
          (a.at (s :: p) part).bind (b.at (t :: q)) =
            (b.at (t :: q) part).bind (a.at (s :: p)) := by
        intro part hpart
        have hempty := hopened noEntries rfl
        cases a with
        | set v =>
          cases b with
          | set w => rw [at_set_missing hpart, at_set_missing hpart, hempty]
          | unset =>
            rw [at_unset_noEntries] at hempty
            rw [at_set_missing hpart, at_unset_missing hpart, hempty]
            exact (at_set_missing hpart v s p).symm
        | unset =>
          cases b with
          | set w =>
            rw [at_unset_noEntries] at hempty
            rw [at_set_missing hpart, at_unset_missing hpart, ← hempty]
            exact at_set_missing hpart w t q
          | unset => rw [at_unset_missing hpart, at_unset_missing hpart, Option.bind_some,
              Option.bind_some, at_unset_missing hpart, at_unset_missing hpart]
      cases part with
      | none => exact hmissing none (.inl rfl)
      | some v =>
        rcases opened?_cases v with hv | rfl | hv
        · exact hopened v hv
        · exact hmissing (some null) (.inr rfl)
        · rw [at_cons_of_not_opened hv, at_cons_of_not_opened hv]
          cases a <;> cases b <;> simp [at_cons_of_not_opened hv]

end Edit

/-! ### What stands at a path -/

namespace Content

/-- The part of a content that a segment names. -/
def part? : Content → String → Option Content
  | object entry, segment => entry segment
  | array items, segment => (position? segment).bind fun i => items[i]?
  | _, _ => none

/-- What stands at a path, null where nothing does. -/
def valueAt : List String → Option Content → Content
  | [], part => part.getD null
  | segment :: rest, part => valueAt rest (part.bind (·.part? segment))

/-- Nothing stands in a missing value. -/
@[simp] theorem valueAt_none (path : List String) : valueAt path none = null := by
  induction path with
  | nil => rfl
  | cons segment rest ih => simpa [valueAt] using ih

/-- Nothing stands in null. -/
@[simp] theorem valueAt_null (path : List String) : valueAt path (some null) = null := by
  cases path with
  | nil => rfl
  | cons segment rest => simp [valueAt, part?]

theorem valueAt_getD_null (path : List String) (part : Option Content) :
    valueAt path (some (part.getD null)) = valueAt path part := by
  cases part <;> simp

/-- A change leaves alone what stands in another part; or in the same part, if it leaves alone what
stands there. -/
theorem valueAt_change {s t : String} {path : List String}
    {f : Option Content → Option (Option Content)} {v w : Content}
    (h : NeverSame s t ∨ ∀ part part', f part = some part' → valueAt path part' = valueAt path part)
    (hw : v.change t f = some w) : valueAt path (w.part? s) = valueAt path (v.part? s) := by
  cases v with
  | object entry =>
    rw [change_object] at hw
    obtain ⟨part, hpart, rfl⟩ := Option.map_eq_some_iff.mp hw
    by_cases hst : s = t
    · subst hst
      simpa [part?] using (h.resolve_left fun hnever => hnever.1 rfl) _ _ hpart
    · simp [part?, hst]
  | array items =>
    rw [change_array] at hw
    split at hw
    · rename_i j hj
      obtain ⟨part, hpart, rfl⟩ := Option.map_eq_some_iff.mp hw
      simp only [part?]
      cases hi : position? s with
      | none => rfl
      | some i =>
        simp only [Option.bind_some, getElem?_storeItem]
        by_cases hij : i = j
        · have hsame := h.resolve_left fun hnever => by
            rcases hnever.2 with hnone | hne
            · rw [hi] at hnone
              cases hnone
            · exact hne (by rw [hi, hj, hij])
          simp only [hij, ↓reduceIte]
          split
          · rw [valueAt_getD_null]
            exact hsame _ _ hpart
          · exact hsame _ _ hpart
        · simp only [hij, ↓reduceIte]
          split
          · rfl
          · rename_i hlt
            rw [List.getElem?_eq_none (by omega)]
            split
            · cases part <;> simp
            · rfl
    · rw [same_of_unlessStored hw]
  | null => rw [same_of_unlessStored hw]
  | bool b => rw [same_of_unlessStored hw]
  | whole n => rw [same_of_unlessStored hw]
  | float x => rw [same_of_unlessStored hw]
  | string s => rw [same_of_unlessStored hw]

end Content

namespace Edit

open Content

/-- **An edit leaves alone what stands at paths that are apart from its own.** -/
theorem valueAt_at {p q : List String} (h : Apart p q) (edit : Edit) {part part' : Option Content}
    (hat : edit.at q part = some part') : valueAt p part' = valueAt p part := by
  induction p generalizing q part part' with
  | nil => simp [Apart] at h
  | cons s p ih =>
    cases q with
    | nil => simp [Apart] at h
    | cons t q =>
      have hchange : ∀ v w : Content, v.change t (edit.at q) = some w →
          valueAt p (w.part? s) = valueAt p (v.part? s) := by
        intro v w hw
        refine valueAt_change ?_ hw
        rcases h with hnever | hrest
        · exact .inl hnever
        · exact .inr fun part part' hpart => ih hrest hpart
      have hopened : ∀ v, opened? (some v) = some v → edit.at (t :: q) (some v) = some part' →
          valueAt (s :: p) part' = valueAt (s :: p) (some v) := by
        intro v hv hat
        rw [at_cons_of_opened edit hv] at hat
        obtain ⟨w, hw, rfl⟩ := Option.map_eq_some_iff.mp hat
        exact hchange v w hw
      have hmissing : part = none ∨ part = some null →
          valueAt (s :: p) part' = valueAt (s :: p) part := by
        intro hpart
        have hnull : valueAt (s :: p) part = null := by
          rcases hpart with rfl | rfl <;> simp
        cases edit with
        | set v =>
          rw [at_set_missing hpart] at hat
          rw [hnull, hopened noEntries rfl hat]
          simp [valueAt, part?, noEntries]
        | unset =>
          rw [at_unset_missing hpart] at hat
          rw [Option.some.inj hat]
      cases part with
      | none => exact hmissing (.inl rfl)
      | some v =>
        rcases opened?_cases v with hv | rfl | hv
        · exact hopened v hv hat
        · exact hmissing (.inr rfl)
        · rw [at_cons_of_not_opened hv] at hat
          cases edit with
          | set v => cases hat
          | unset =>
            cases hat
            rfl

end Edit

/-! ### Several edits -/

/-- The paths of two sequences of edits are apart. -/
def AllApart (as bs : List (List String × Edit)) : Prop :=
  ∀ a ∈ as, ∀ b ∈ bs, Apart a.1 b.1

/-- An edit and a sequence of edits can be made in either order. -/
theorem at_comm_runEdits {a : List String × Edit} {bs : List (List String × Edit)}
    (h : ∀ b ∈ bs, Apart a.1 b.1) (part : Option Content) :
    (a.2.at a.1 part).bind (runEdits bs) = (runEdits bs part).bind (a.2.at a.1) := by
  induction bs generalizing part with
  | nil => simp [runEdits]
  | cons b bs ih =>
    have hb := Edit.at_comm a.2 b.2 (h b List.mem_cons_self) part
    have hrest : ∀ part, (a.2.at a.1 part).bind (runEdits bs) =
        (runEdits bs part).bind (a.2.at a.1) :=
      ih fun b hb => h b (List.mem_cons_of_mem _ hb)
    calc (a.2.at a.1 part).bind (runEdits (b :: bs))
        = ((a.2.at a.1 part).bind (b.2.at b.1)).bind (runEdits bs) := by
          rw [Option.bind_assoc]
          rfl
      _ = (b.2.at b.1 part).bind fun part => (a.2.at a.1 part).bind (runEdits bs) := by
          rw [hb, Option.bind_assoc]
      _ = (b.2.at b.1 part).bind fun part => (runEdits bs part).bind (a.2.at a.1) := by
          simp only [hrest]
      _ = (runEdits (b :: bs) part).bind (a.2.at a.1) := by
          rw [← Option.bind_assoc]
          rfl

/-- **Sequences of edits at paths that are apart can be made in either order.** -/
theorem runEdits_comm {as bs : List (List String × Edit)} (h : AllApart as bs)
    (part : Option Content) :
    (runEdits as part).bind (runEdits bs) = (runEdits bs part).bind (runEdits as) := by
  induction as generalizing part with
  | nil =>
    cases hbs : runEdits bs part <;> simp [runEdits, hbs]
  | cons a as ih =>
    have ha : ∀ part : Option Content, (a.2.at a.1 part).bind (runEdits bs) =
        (runEdits bs part).bind (a.2.at a.1) := at_comm_runEdits (h a List.mem_cons_self)
    have hrest := ih fun a ha => h a (List.mem_cons_of_mem _ ha)
    calc (runEdits (a :: as) part).bind (runEdits bs)
        = (a.2.at a.1 part).bind fun part => (runEdits as part).bind (runEdits bs) := by
          rw [← Option.bind_assoc]
          rfl
      _ = (a.2.at a.1 part).bind fun part => (runEdits bs part).bind (runEdits as) := by
          simp only [hrest]
      _ = ((a.2.at a.1 part).bind (runEdits bs)).bind (runEdits as) := by
          rw [Option.bind_assoc]
      _ = (runEdits bs part).bind (runEdits (a :: as)) := by
          rw [ha part, Option.bind_assoc]
          rfl

/-- Edits leave alone what stands at a path that is apart from theirs. -/
theorem valueAt_runEdits {path : List String} {bs : List (List String × Edit)}
    (h : ∀ b ∈ bs, Apart path b.1) {part part' : Option Content}
    (hrun : runEdits bs part = some part') :
    Content.valueAt path part' = Content.valueAt path part := by
  induction bs generalizing part with
  | nil =>
    cases hrun
    rfl
  | cons b bs ih =>
    obtain ⟨part₁, hb, hrest⟩ := Option.bind_eq_some_iff.mp hrun
    rw [ih (fun b hb => h b (List.mem_cons_of_mem _ hb)) hrest,
      Edit.valueAt_at (h b List.mem_cons_self) b.2 hb]

/-! ### Paths that are apart -/

/-- Being apart works both ways. -/
theorem Apart.symm {p q : List String} (h : Apart p q) : Apart q p := by
  induction p generalizing q with
  | nil => simp [Apart] at h
  | cons s p ih =>
    cases q with
    | nil => simp [Apart] at h
    | cons t q =>
      rcases h with ⟨hne, hpos⟩ | h
      · refine .inl ⟨hne.symm, ?_⟩
        rcases hpos with hnone | hpos
        · by_cases ht : position? t = none
          · exact .inl ht
          · exact .inr (by rw [hnone]; exact ht)
        · exact .inr hpos.symm
      · exact .inr (ih h)

end DocumentMapper
