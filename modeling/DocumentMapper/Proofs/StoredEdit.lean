import DocumentMapper.Json.Path
import DocumentMapper.Proofs.ContentEdit
import DocumentMapper.Proofs.DottedPaths
import DocumentMapper.Proofs.Segments

/-!
# Edits of stored values

Setting and removing along a path of a stored value does to its content what the edits of contents
do, and keeps it well formed.

## Main results

* `Object.content_setPath`, `Object.content_removePath`: writing and removing along a dotted path
  are edits of the content;
* `Object.wellFormed_setPath`, `Object.wellFormed_removePath`: both keep a document well formed.
-/

namespace DocumentMapper

open Text

namespace Json

/-! ### Setting -/

/-- The content of the items after one was put at a position. -/
theorem contentItems_putItem (items : List Json) (i : Nat) (v : Json) :
    contentItems (putItem items i v) =
      Content.storeItem (contentItems items) i (some v.content) := by
  simp only [contentItems_eq_map, putItem, Content.storeItem, List.length_map]
  split
  · rw [List.map_set]
  · simp [List.map_append, List.map_replicate, Json.content]

/-- The content of the entries after one was written. -/
theorem contentEntry_insert (es : Object) (key : String) (v : Json) :
    contentEntry (es.insert key v) =
      fun k => if k = key then some v.content else contentEntry es k := by
  funext k
  rw [Entries.get?_content, Entries.get?_insert, Entries.get?_content]
  by_cases h : key = k
  · simp [h]
  · simp [h, Ne.symm h]

/-- The content of the entries after one was erased. -/
theorem contentEntry_erase {es : Object} (hkeys : (es.map Prod.fst).Nodup) (key : String) :
    contentEntry (es.erase key) = fun k => if k = key then none else contentEntry es k := by
  funext k
  rw [Entries.get?_content, Entries.get?_erase hkeys, Entries.get?_content]
  by_cases h : key = k
  · simp [h]
  · simp [h, Ne.symm h]

/-- Changing a part of an object or an array changes the part of its content. -/
theorem content_changePart {path segment : String} {F : Json → Except StoreError Json}
    {f : Option Content → Option (Option Content)}
    (h : ∀ part : Option Json, (F (part.getD null)).toOption.map (fun v => some v.content) =
      f (part.map content)) {j : Json} (hj : Content.opened? (some j.content) = some j.content) :
    (changePart path segment F j).toOption.map content = j.content.change segment f := by
  cases j with
  | object es =>
    have hpart := h (Entries.get? es segment)
    simp only [changePart_object, content, Content.change_object, Entries.get?_content, ← hpart]
    rcases F ((Entries.get? es segment).getD null) with cause | v
    · rfl
    · simp only [Except.toOption, Option.map_some, bind, Except.bind, pure, Except.pure, content,
        contentEntry_insert]
      simp only [Entries.get?_content]
  | array items =>
    simp only [changePart_array, content, Content.change_array]
    cases hpos : position? segment with
    | none =>
      have hstores : Content.storesNothing f = false := by
        have hnone := h none
        unfold Content.storesNothing
        rw [show f none = f (Option.map content none) from rfl, ← hnone]
        rcases F (Option.getD none null) with cause | v <;> rfl
      simp only [Content.unlessStored, hstores]
      rfl
    | some i =>
      have hpart := h items[i]?
      simp only [contentItems_eq_map, List.getElem?_map, ← hpart]
      rcases F (items[i]?.getD null) with cause | v
      · rfl
      · simp only [Except.toOption, Option.map_some, bind, Except.bind, pure, Except.pure, content,
          contentItems_putItem]
        simp only [contentItems_eq_map]
  | null => simp [content, Content.opened?, Content.noEntries] at hj
  | bool b => simp [content, Content.opened?] at hj
  | whole n => simp [content, Content.opened?] at hj
  | float x => simp [content, Content.opened?] at hj
  | string s => simp [content, Content.opened?] at hj

/-- What writing along a path makes of the part that its first segment names. -/
def writeBelow (path segment : String) (new : Json) (rest : List String) :
    Json → Except StoreError Json
  | null => setSegments path new rest (object [])
  | object es => setSegments path new rest (object es)
  | array items => setSegments path new rest (array items)
  | _ => throw (.scalarPart segment path)

theorem setSegments_cons_cons (path segment next : String) (new : Json) (rest : List String)
    (j : Json) : setSegments path new (segment :: next :: rest) j =
      changePart path segment (writeBelow path segment new (next :: rest)) j :=
  rfl

/-- **Writing along a path sets the content along it.** -/
theorem content_setSegments (path : String) (new : Json) {segments : List String}
    (hne : segments ≠ []) {j : Json} (hj : Content.opened? (some j.content) = some j.content) :
    (setSegments path new segments j).toOption.map (fun v => some v.content) =
      (Edit.set new.content).at segments (some j.content) := by
  induction segments generalizing j with
  | nil => exact absurd rfl hne
  | cons segment rest ih =>
    have hat : (Edit.set new.content).at (segment :: rest) (some j.content) =
        (j.content.change segment ((Edit.set new.content).at rest)).map some :=
      Edit.at_cons_of_opened _ hj segment rest
    rw [hat]
    cases rest with
    | nil =>
      have hchange : (changePart path segment (fun _ => return new) j).toOption.map content =
          j.content.change segment ((Edit.set new.content).at []) :=
        content_changePart (fun part => rfl) hj
      rw [← hchange, Option.map_map]
      rfl
    | cons next rest =>
      have hempty := ih (List.cons_ne_nil next rest) (j := object []) rfl
      have hstep : ∀ part : Option Json,
          (writeBelow path segment new (next :: rest) (part.getD null)).toOption.map
              (fun v => some v.content) =
            (Edit.set new.content).at (next :: rest) (part.map content) := by
        intro part
        -- A missing part and null are written to like an object without entries.
        cases part with
        | none => exact hempty
        | some part =>
          cases part with
          | null => exact hempty
          | object es => exact ih (List.cons_ne_nil next rest) rfl
          | array items => exact ih (List.cons_ne_nil next rest) rfl
          | bool b => rfl
          | whole n => rfl
          | float x => rfl
          | string s => rfl
      rw [setSegments_cons_cons, ← content_changePart hstep hj, Option.map_map]
      rfl

/-! ### Removing -/

/-- What remains of a value without what stands at a path. -/
def withoutPath (segments : List String) (j : Json) : Json :=
  match removeSegments? segments j with
  | some (_, rest) => rest
  | none => j

/-- Replacing a part by itself changes nothing. -/
theorem replacePart_child? {j part : Json} {segment : String} (h : j.child? segment = some part) :
    replacePart segment part j = j := by
  obtain ⟨es, rfl, hget⟩ | ⟨items, i, rfl, hpos, hget⟩ := cases_of_child? h
  · exact congrArg object (Entries.insert_of_get? hget)
  · obtain ⟨hi, rfl⟩ := List.getElem?_eq_some_iff.mp hget
    simp [replacePart_array, hpos]

/-- Removing below a part replaces the part, if there is one. -/
theorem withoutPath_cons_cons (segment next : String) (rest : List String) (j : Json) :
    withoutPath (segment :: next :: rest) j =
      match j.child? segment with
      | some part => replacePart segment (withoutPath (next :: rest) part) j
      | none => j := by
  simp only [withoutPath, removeSegments?]
  cases hchild : j.child? segment with
  | none => rfl
  | some part =>
    cases hremove : removeSegments? (next :: rest) part with
    | none => simp [hremove, replacePart_child? hchild]
    | some removed => simp [hremove]

/-- The part that a segment names has the content that the segment names. -/
theorem content_child? (j : Json) (segment : String) :
    (j.child? segment).map content = j.content.part? segment := by
  cases j with
  | object es => simp [child?, content, Content.part?, Entries.get?_content]
  | array items =>
    simp only [child?, content, Content.part?, contentItems_eq_map]
    cases position? segment <;> simp
  | null => rfl
  | bool b => rfl
  | whole n => rfl
  | float x => rfl
  | string s => rfl

/-- Changing an existing part into another one replaces it. -/
theorem content_replacePart {j part new : Json} {segment : String}
    {f : Option Content → Option (Option Content)} (hchild : j.child? segment = some part)
    (hf : f (some part.content) = some (some new.content)) :
    j.content.change segment f = some (replacePart segment new j).content := by
  obtain ⟨es, rfl, hget⟩ | ⟨items, i, rfl, hpos, hget⟩ := cases_of_child? hchild
  · simp only [content, Content.change_object, Entries.get?_content, hget, Option.map_some, hf,
      replacePart_object, contentEntry_insert]
  · obtain ⟨hi, -⟩ := List.getElem?_eq_some_iff.mp hget
    simp only [content, Content.change_array, hpos, contentItems_eq_map, List.getElem?_map, hget,
      Option.map_some, hf, replacePart_array, List.map_set]
    rw [Content.storeItem_of_lt (by simpa using hi)]
    rfl

/-- A change that stores nothing in place of nothing leaves a value without the part as it is. -/
theorem change_of_part?_none {v : Content} {segment : String}
    {f : Option Content → Option (Option Content)} (hpart : v.part? segment = none)
    (hf : f none = some none) : v.change segment f = some v := by
  have hnothing : Content.storesNothing f = true := by simp [Content.storesNothing, hf]
  cases v with
  | object entry =>
    simp only [Content.part?] at hpart
    simp only [Content.change_object, hpart, hf, Option.map_some, Option.some.injEq,
      Content.object.injEq]
    funext k
    by_cases hk : k = segment
    · simp [hk, hpart]
    · simp [hk]
  | array items =>
    rw [Content.change_array]
    cases hpos : position? segment with
    | none => simp [Content.unlessStored, hnothing]
    | some i =>
      simp only [Content.part?, hpos, Option.bind_some] at hpart
      have hout : items.length ≤ i := List.getElem?_eq_none_iff.mp hpart
      simp [hpart, hf, Content.storeItem, List.set_eq_of_length_le hout]
  | null => exact if_pos hnothing
  | bool b => exact if_pos hnothing
  | whole n => exact if_pos hnothing
  | float x => exact if_pos hnothing
  | string s => exact if_pos hnothing

/-- Removing along a path without a destination does nothing. -/
theorem withoutPath_singleton_none {j : Json} {segment : String} (h : j.child? segment = none) :
    withoutPath [segment] j = j := by
  cases j with
  | object es =>
    simp only [child?] at h
    simp [withoutPath, removeSegments?, h]
  | array items =>
    simp only [child?] at h
    cases hpos : position? segment with
    | none => simp [withoutPath, removeSegments?, hpos]
    | some i =>
      rw [hpos, Option.bind_some] at h
      simp [withoutPath, removeSegments?, hpos, h]
  | null => rfl
  | bool b => rfl
  | whole n => rfl
  | float x => rfl
  | string s => rfl

/-- An entry that is removed is gone. -/
theorem withoutPath_entry {es : Object} {s : String} {part : Json}
    (h : (object es).child? s = some part) :
    withoutPath [s] (object es) = object (Entries.erase es s) := by
  have hget : Entries.get? es s = some part := h
  simp [withoutPath, removeSegments?, hget]

/-- An item that is removed makes way for null. -/
theorem withoutPath_item {items : List Json} {s : String} {part : Json}
    (h : (array items).child? s = some part) :
    withoutPath [s] (array items) = replacePart s null (array items) := by
  obtain ⟨i, hs, hitem⟩ := Option.bind_eq_some_iff.mp h
  simp [withoutPath, removeSegments?, replacePart_array, hs, hitem]

/-- Removing the part that a segment names. -/
theorem content_withoutPath_singleton {j : Json} (hj : j.WellFormed) (segment : String) :
    j.content.change segment (Edit.unset.at []) = some (withoutPath [segment] j).content := by
  cases hchild : j.child? segment with
  | none =>
    rw [withoutPath_singleton_none hchild]
    refine change_of_part?_none ?_ rfl
    rw [← content_child?, hchild]
    rfl
  | some part =>
    obtain ⟨es, rfl⟩ | ⟨items, rfl⟩ := isContainer_of_child? hchild
    · simp only [withoutPath_entry hchild, content, Content.change_object, Edit.at, Option.map_some,
        contentEntry_erase (wellFormed_object.mp hj).1]
    · obtain ⟨i, hpos, -⟩ := Option.bind_eq_some_iff.mp hchild
      simp [withoutPath_item hchild, replacePart_array, hpos, content, Content.change_array, Edit.at,
        Content.storeItem]

/-- A part of a well-formed value is well formed. -/
theorem wellFormed_child? {j part : Json} {segment : String} (hj : j.WellFormed)
    (h : j.child? segment = some part) : part.WellFormed := by
  obtain ⟨es, rfl, hget⟩ | ⟨items, i, rfl, -, hget⟩ := cases_of_child? h
  · exact (wellFormed_object.mp hj).2 _ (Entries.mem_of_get? hget)
  · exact wellFormed_array.mp hj part (List.mem_of_getElem? hget)

/-- What a path leads to in a well-formed value is well formed. -/
theorem wellFormed_getPath? {segments : List String} {j part : Json} (hj : j.WellFormed)
    (h : j.getPath? segments = some part) : part.WellFormed := by
  induction segments generalizing j with
  | nil =>
    cases h
    exact hj
  | cons segment rest ih =>
    obtain ⟨child, hchild, h⟩ := Option.bind_eq_some_iff.mp h
    exact ih (wellFormed_child? hj hchild) h

/-- **Removing along a path removes from the content along it.** -/
theorem content_withoutPath {segments : List String} (hne : segments ≠ []) {j : Json}
    (hj : j.WellFormed) :
    Edit.unset.at segments (some j.content) = some (some (withoutPath segments j).content) := by
  induction segments generalizing j with
  | nil => exact absurd rfl hne
  | cons segment rest ih =>
    simp only [Edit.at]
    cases rest with
    | nil => rw [content_withoutPath_singleton hj, Option.map_some]
    | cons next rest =>
      rw [withoutPath_cons_cons]
      cases hchild : j.child? segment with
      | none =>
        have hpart : j.content.part? segment = none := by
          rw [← content_child?, hchild]
          rfl
        rw [change_of_part?_none hpart (Edit.at_unset_none _), Option.map_some]
      | some part =>
        have hbelow := ih (List.cons_ne_nil next rest) (wellFormed_child? hj hchild)
        rw [content_replacePart hchild hbelow, Option.map_some]

/-! ### Well-formedness -/

/-- Putting a well-formed value under a key keeps an object well formed. -/
theorem wellFormed_insert {es : Object} {v : Json} (hes : (object es).WellFormed)
    (hv : v.WellFormed) (key : String) : (object (Entries.insert es key v)).WellFormed := by
  obtain ⟨hkeys, hvalues⟩ := wellFormed_object.mp hes
  refine wellFormed_object.mpr ⟨Entries.nodup_insert hkeys key v, fun e he => ?_⟩
  rcases Entries.mem_insert he with he | rfl
  · exact hvalues e he
  · exact hv

/-- Putting a well-formed value in place of an item keeps an array well formed. -/
theorem wellFormed_set {items : List Json} {v : Json} (hitems : (array items).WellFormed)
    (hv : v.WellFormed) (i : Nat) : (array (items.set i v)).WellFormed := by
  refine wellFormed_array.mpr fun item hitem => ?_
  rcases List.mem_or_eq_of_mem_set hitem with hitem | rfl
  · exact wellFormed_array.mp hitems item hitem
  · exact hv

/-- So does putting it behind the end, where null fills the gap. -/
theorem wellFormed_putItem {items : List Json} {v : Json} (hitems : (array items).WellFormed)
    (hv : v.WellFormed) (i : Nat) : (array (putItem items i v)).WellFormed := by
  unfold putItem
  split
  · exact wellFormed_set hitems hv i
  · refine wellFormed_array.mpr fun item hitem => ?_
    simp only [List.append_assoc, List.mem_append, List.mem_replicate, List.mem_singleton] at hitem
    rcases hitem with hitem | ⟨-, rfl⟩ | rfl
    · exact wellFormed_array.mp hitems item hitem
    · trivial
    · exact hv

/-- What a segment names in a well-formed value, or null, is well formed. -/
theorem wellFormed_getD_child? {j : Json} (hj : j.WellFormed) (segment : String) :
    ((j.child? segment).getD null).WellFormed := by
  cases h : j.child? segment with
  | none => trivial
  | some part => exact wellFormed_child? hj h

/-- Changing a part of a well-formed value by a well-formed one keeps it well formed. -/
theorem wellFormed_changePart {path segment : String} {F : Json → Except StoreError Json}
    {j j' : Json} (hj : j.WellFormed)
    (hF : ∀ part part' : Json, part.WellFormed → F part = .ok part' → part'.WellFormed)
    (h : changePart path segment F j = .ok j') : j'.WellFormed := by
  have hpart := wellFormed_getD_child? hj segment
  cases j with
  | object es =>
    rw [changePart_object] at h
    cases hv : F ((Entries.get? es segment).getD null) with
    | error cause =>
      rw [hv] at h
      cases h
    | ok v =>
      rw [hv] at h
      cases h
      exact wellFormed_insert hj (hF _ v hpart hv) segment
  | array items =>
    rw [changePart_array] at h
    cases hpos : position? segment with
    | none =>
      rw [hpos] at h
      cases h
    | some i =>
      simp only [hpos] at h
      simp only [child?, hpos, Option.bind_some] at hpart
      cases hv : F (items[i]?.getD null) with
      | error cause =>
        rw [hv] at h
        cases h
      | ok v =>
        rw [hv] at h
        cases h
        exact wellFormed_putItem hj (hF _ v hpart hv) i
  | _ =>
    cases h
    exact hj

/-- Writing a well-formed value keeps a value well formed. -/
theorem wellFormed_setSegments {path : String} {new : Json} (hnew : new.WellFormed)
    {segments : List String} {j j' : Json} (hj : j.WellFormed)
    (h : setSegments path new segments j = .ok j') : j'.WellFormed := by
  induction segments generalizing j j' with
  | nil =>
    cases h
    exact hj
  | cons segment rest ih =>
    cases rest with
    | nil =>
      refine wellFormed_changePart hj (fun part part' _ hpart => ?_) h
      cases hpart
      exact hnew
    | cons next rest =>
      rw [setSegments_cons_cons] at h
      refine wellFormed_changePart hj (fun part part' hwf hpart => ?_) h
      cases part with
      | null => exact ih (wellFormed_object.mpr (by simp)) hpart
      | object es => exact ih hwf hpart
      | array items => exact ih hwf hpart
      | bool b => cases hpart
      | whole n => cases hpart
      | float x => cases hpart
      | string s => cases hpart

/-- Replacing a part by a well-formed value keeps a value well formed. -/
theorem wellFormed_replacePart {j new : Json} {segment : String} (hj : j.WellFormed)
    (hnew : new.WellFormed) : (replacePart segment new j).WellFormed := by
  cases j with
  | object es => exact wellFormed_insert hj hnew segment
  | array items =>
    rw [replacePart_array]
    cases position? segment with
    | none => exact hj
    | some i => exact wellFormed_set hj hnew i
  | _ => exact hj

/-- Removing a part keeps a value well formed. -/
theorem wellFormed_withoutPath_singleton {j : Json} (hj : j.WellFormed) (segment : String) :
    (withoutPath [segment] j).WellFormed := by
  cases hchild : j.child? segment with
  | none =>
    rw [withoutPath_singleton_none hchild]
    exact hj
  | some part =>
    obtain ⟨es, rfl⟩ | ⟨items, rfl⟩ := isContainer_of_child? hchild
    · obtain ⟨hkeys, hvalues⟩ := wellFormed_object.mp hj
      rw [withoutPath_entry hchild]
      exact wellFormed_object.mpr ⟨Entries.nodup_erase hkeys segment,
        fun e he => hvalues e (Entries.mem_of_mem_erase he)⟩
    · rw [withoutPath_item hchild]
      exact wellFormed_replacePart hj trivial

/-- Removing keeps a value well formed. -/
theorem wellFormed_withoutPath {segments : List String} {j : Json} (hj : j.WellFormed) :
    (withoutPath segments j).WellFormed := by
  induction segments generalizing j with
  | nil => exact hj
  | cons segment rest ih =>
    cases rest with
    | nil => exact wellFormed_withoutPath_singleton hj segment
    | cons next rest =>
      rw [withoutPath_cons_cons]
      cases hchild : j.child? segment with
      | none => exact hj
      | some part => exact wellFormed_replacePart hj (ih (wellFormed_child? hj hchild))

end Json

namespace Object

/-! ### Stored documents -/

/-- Writing along a path of an object leaves an object. -/
theorem object_of_setSegments {path : String} {new : Json} {segments : List String} {doc : Object}
    {j : Json} (h : Json.setSegments path new segments (.object doc) = .ok j) :
    ∃ es, j = .object es := by
  have hchange : ∀ segment F, Json.changePart path segment F (.object doc) = .ok j →
      ∃ es, j = .object es := by
    intro segment F h
    rw [Json.changePart_object] at h
    cases hv : F ((Entries.get? doc segment).getD .null) with
    | error cause =>
      rw [hv] at h
      cases h
    | ok v =>
      rw [hv] at h
      cases h
      exact ⟨_, rfl⟩
  match segments with
  | [] =>
    cases h
    exact ⟨doc, rfl⟩
  | [segment] => exact hchange segment _ h
  | segment :: next :: rest => exact hchange segment _ h

/-- A document is written at a dotted path exactly when its value is written along the segments. -/
theorem setPath_eq_ok {doc doc' : Object} {path : String} {new : Json} :
    doc.setPath path new = .ok doc' ↔
      Json.setSegments path new (dottedSegments path) (.object doc) = .ok (.object doc') := by
  unfold setPath
  cases h : Json.setSegments path new (dottedSegments path) (.object doc) with
  | error cause =>
    constructor
    · intro h'
      cases h'
    · intro h'
      cases h'
  | ok j =>
    obtain ⟨es, rfl⟩ := object_of_setSegments h
    constructor
    · intro h'
      cases h'
      rfl
    · intro h'
      cases h'
      rfl

/-- **Writing at a dotted path sets the content there**, and fails where setting the content
fails. -/
theorem content_setPath (doc : Object) (path : String) (new : Json) :
    (doc.setPath path new).toOption.map (fun doc' => some doc'.content) =
      (Edit.set new.content).at (dottedSegments path) (some doc.content) := by
  have hset := Json.content_setSegments path new (dottedSegments_ne_nil path) (j := .object doc) rfl
  refine Eq.trans ?_ hset
  unfold setPath
  cases h : Json.setSegments path new (dottedSegments path) (.object doc) with
  | error cause => rfl
  | ok j =>
    obtain ⟨es, rfl⟩ := object_of_setSegments h
    rfl

/-- Removing at a dotted path removes along its segments. -/
theorem object_removePath (doc : Object) (path : String) :
    Json.object (doc.removePath path) =
      Json.withoutPath (dottedSegments path) (.object doc) := by
  have hreplace : ∀ segment new es, ∃ fs, Json.replacePart segment new (.object es) =
      .object fs := fun segment new es => ⟨_, rfl⟩
  have hobject : ∀ segments (v rest : Json),
      Json.removeSegments? segments (.object doc) = some (v, rest) → ∃ es, rest = .object es := by
    intro segments v rest h
    match segments with
    | [] => simp [Json.removeSegments?] at h
    | [segment] =>
      simp only [Json.removeSegments?] at h
      obtain ⟨w, -, hw⟩ := Option.map_eq_some_iff.mp h
      cases hw
      exact ⟨_, rfl⟩
    | segment :: next :: more =>
      simp only [Json.removeSegments?] at h
      obtain ⟨part, -, h⟩ := Option.bind_eq_some_iff.mp h
      obtain ⟨⟨w, part'⟩, -, h⟩ := Option.bind_eq_some_iff.mp h
      cases h
      exact hreplace _ _ _
  unfold removePath removePath? Json.withoutPath
  cases h : Json.removeSegments? (dottedSegments path) (.object doc) with
  | none => rfl
  | some removed =>
    obtain ⟨v, rest⟩ := removed
    obtain ⟨es, rfl⟩ := hobject _ v rest h
    rfl

/-- **Removing at a dotted path removes from the content there.** -/
theorem content_removePath {doc : Object} (hdoc : doc.WellFormed) (path : String) :
    Edit.unset.at (dottedSegments path) (some doc.content) =
      some (some (doc.removePath path).content) := by
  have hremove := Json.content_withoutPath (dottedSegments_ne_nil path) hdoc
  rw [← object_removePath] at hremove
  exact hremove

/-- Writing a well-formed value keeps a document well formed. -/
theorem wellFormed_setPath {doc doc' : Object} {path : String} {new : Json} (hdoc : doc.WellFormed)
    (hnew : new.WellFormed) (h : doc.setPath path new = .ok doc') : doc'.WellFormed :=
  Json.wellFormed_setSegments hnew hdoc (setPath_eq_ok.mp h)

/-- Removing keeps a document well formed. -/
theorem wellFormed_removePath {doc : Object} (hdoc : doc.WellFormed) (path : String) :
    (doc.removePath path).WellFormed := by
  unfold WellFormed
  rw [object_removePath]
  exact Json.wellFormed_withoutPath hdoc

/-- What a document has at a dotted path is what its content has there. -/
theorem content_getPath? (doc : Object) (path : String) :
    ((doc.getPath? path).map Json.content).getD .null =
      Content.valueAt (dottedSegments path) (some doc.content) := by
  have hsegments : ∀ (segments : List String) (j : Option Json),
      ((j.bind (Json.getPath? segments)).map Json.content).getD .null =
        Content.valueAt segments (j.map Json.content) := by
    intro segments
    induction segments with
    | nil => intro j; cases j <;> rfl
    | cons segment rest ih =>
      intro j
      cases j with
      | none => simp
      | some j =>
        simp only [Option.bind_some, Json.getPath?, Option.map_some, Content.valueAt]
        rw [← Json.content_child?, ih]
  exact hsegments (dottedSegments path) (some (.object doc))

end Object

end DocumentMapper
