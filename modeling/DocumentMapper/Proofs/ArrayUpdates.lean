import DocumentMapper.Proofs.EntryEffects

/-!
# Changing arrays

The operators for arrays read the array at a path and write another one there. Where an array is, it
can be replaced, whatever the path leads through. Where there is none, the path has to be created,
and that goes through objects only: missing values and null make way for them, other values do not.

## Main results

* `Json.setSegments_of_getPath?`: what a path leads to can be replaced, and is read back;
* `HoldsArray`: when a document has an array at a path, or can be given an empty one;
* `HoldsArray.changeArray`, `HoldsArray.pull`: what the operators for arrays leave there;
* `Object.apply_single`: an update with one entry is that entry.
-/

namespace DocumentMapper

open Text

/-! ### Values that are there -/

namespace Json

/-- The part that a segment names can be changed where the change is possible, and is read back. -/
theorem changePart_of_child? (path : String) {segment : String} {j part new : Json}
    {F : Json → Except StoreError Json} (hchild : j.child? segment = some part)
    (hF : F part = .ok new) :
    ∃ j', changePart path segment F j = .ok j' ∧ j'.child? segment = some new := by
  obtain ⟨es, rfl, hget⟩ | ⟨items, i, rfl, hposition, hget⟩ := cases_of_child? hchild
  · refine ⟨.object (Entries.insert es segment new), ?_, Entries.get?_insert_self ..⟩
    rw [changePart_object, hget, Option.getD_some, hF]
    rfl
  · have hlt := (List.getElem?_eq_some_iff.mp hget).1
    refine ⟨.array (items.set i new), ?_, by simp [child?, hposition, hlt]⟩
    simp only [changePart_array, hposition, hget, Option.getD_some, hF, putItem, if_pos hlt]
    rfl

/-- **What a path leads to can be replaced, and is read back.** -/
theorem setSegments_of_getPath? (path : String) {segments : List String} {j v : Json}
    (hne : segments ≠ []) (h : j.getPath? segments = some v) (new : Json) :
    ∃ j', setSegments path new segments j = .ok j' ∧ j'.getPath? segments = some new := by
  induction segments generalizing j with
  | nil => exact absurd rfl hne
  | cons segment rest ih =>
    obtain ⟨part, hchild, h⟩ := Option.bind_eq_some_iff.mp h
    cases rest with
    | nil =>
      obtain ⟨j', hset, hread⟩ :=
        changePart_of_child? path (F := fun _ => return new) hchild rfl
      exact ⟨j', hset, by simp [getPath?, hread]⟩
    | cons next rest =>
      obtain ⟨part', hset, hread⟩ := ih (List.cons_ne_nil next rest) h
      have hbelow : writeBelow path segment new (next :: rest) part = .ok part' := by
        obtain ⟨inner, hnext, -⟩ := Option.bind_eq_some_iff.mp h
        rcases isContainer_of_child? hnext with ⟨es, rfl⟩ | ⟨items, rfl⟩
        · exact hset
        · exact hset
      obtain ⟨j', hset', hread'⟩ := changePart_of_child? path hchild hbelow
      refine ⟨j', by rw [setSegments_cons_cons, hset'], ?_⟩
      rw [getPath?, hread', Option.bind_some, hread]

end Json

/-! ### Paths that can be created -/

/-- A path leads to nothing, and it can be created in some entries: what stands on the way is an
object, null or missing. -/
inductive Creatable : List String → Object → Prop
  | entry {s : String} {es : Object} (h : es.get? s = none) : Creatable [s] es
  | deeper {s t : String} {rest : List String} {es fs : Object}
      (hopened : openedEntries? (es.get? s) = some fs) (h : Creatable (t :: rest) fs) :
      Creatable (s :: t :: rest) es

section

variable {segments : List String} {es es' : Object} {new : Json}

/-- A path that can be created leads to nothing. -/
theorem Creatable.getPath?_none (h : Creatable segments es) :
    (Json.object es).getPath? segments = none := by
  induction h with
  | entry h => simp [Json.getPath?, Json.child?, h]
  | deeper hopened h ih =>
    rw [← Json.getPath?_opened (List.cons_ne_nil _ _) hopened]
    exact ih

/-- A path that can be created can be written. -/
theorem Creatable.written (h : Creatable segments es) (new : Json) :
    ∃ es', Written new segments es es' := by
  induction h with
  | entry h => exact ⟨_, .entry _ _⟩
  | deeper hopened h ih =>
    obtain ⟨fs', hwritten⟩ := ih
    exact ⟨_, .deeper hopened hwritten⟩

/-- What is written through objects only is written along any path. -/
theorem Written.setSegments (h : Written new segments es es') (path : String) :
    Json.setSegments path new segments (.object es) = .ok (.object es') := by
  induction h with
  | entry s es => rfl
  | @deeper s t rest es fs fs' hopened h ih =>
    have hbelow : Json.writeBelow path s new (t :: rest) ((es.get? s).getD .null) =
        .ok (.object fs') := by
      generalize es.get? s = part at hopened
      rcases part with _ | (_ | _ | _ | _ | _ | _ | _) <;> cases hopened <;> exact ih
    rw [Json.setSegments_cons_cons, Json.changePart_object, hbelow]
    rfl

end

namespace Object

variable {doc : Object} {path : String}

/-- A value that is there can be replaced, and is read back. -/
theorem setPath_of_getPath? {v : Json} (h : doc.getPath? path = some v) (new : Json) :
    ∃ doc', doc.setPath path new = .ok doc' ∧ doc'.getPath? path = some new := by
  obtain ⟨j', hset, hread⟩ :=
    Json.setSegments_of_getPath? path (dottedSegments_ne_nil path) h new
  obtain ⟨doc', rfl⟩ := object_of_setSegments hset
  exact ⟨doc', setPath_eq_ok.mpr hset, hread⟩

/-- A path that can be created is written, and is read back. -/
theorem setPath_of_creatable (h : Creatable (dottedSegments path) doc) (new : Json) :
    ∃ doc', doc.setPath path new = .ok doc' ∧ doc'.getPath? path = some new := by
  obtain ⟨doc', hwritten⟩ := h.written new
  exact ⟨doc', setPath_eq_ok.mpr (hwritten.setSegments path), hwritten.getPath?_self⟩

end Object

/-! ### Operators for arrays -/

/-- A document has an array at a path, or none there and can be given an empty one. -/
inductive HoldsArray (doc : Object) (path : String) : List Json → Prop
  | present {items : List Json} (h : doc.getPath? path = some (.array items)) :
      HoldsArray doc path items
  | missing (h : Creatable (dottedSegments path) doc) : HoldsArray doc path []

namespace HoldsArray

variable {doc : Object} {path : String} {items : List Json}

/-- The array is opened, and can be replaced then. -/
theorem arrayAt (h : HoldsArray doc path items) (op : String) :
    ∃ found, doc.arrayAt path op = .ok (found, items) ∧
      ∀ new, ∃ doc', found.setPath path new = .ok doc' ∧ doc'.getPath? path = some new := by
  cases h with
  | present h =>
    refine ⟨doc, ?_, fun new => Object.setPath_of_getPath? h new⟩
    simp only [Object.arrayAt, h]
    rfl
  | missing h =>
    have hnone : doc.getPath? path = none := h.getPath?_none
    obtain ⟨found, hset, hread⟩ := Object.setPath_of_creatable h (.array [])
    refine ⟨found, ?_, fun new => Object.setPath_of_getPath? hread new⟩
    simp only [Object.arrayAt, hnone, hset]
    rfl

/-- **A change of the items is read back.** -/
theorem changeArray (h : HoldsArray doc path items) (op : String) (f : List Json → List Json) :
    ∃ doc', doc.changeArray path op f = .ok doc' ∧
      doc'.getPath? path = some (.array (f items)) := by
  obtain ⟨found, harray, hset⟩ := h.arrayAt op
  obtain ⟨doc', hwrite, hread⟩ := hset (.array (f items))
  exact ⟨doc', bind_eq_ok.mpr ⟨_, harray, hwrite⟩, hread⟩

/-- Values that are pushed are inserted at their place, or at the end. -/
theorem push (h : HoldsArray doc path items) (op : String) {unique : Bool} {operand : Json}
    {values : List Json} {place : Option Nat}
    (hvalues : pushedValues operand = .ok (values, place)) :
    ∃ doc', doc.push path op unique operand = .ok doc' ∧ doc'.getPath? path = some (.array
      (insertEach unique values (min (place.getD items.length) items.length) items)) := by
  obtain ⟨doc', hchange, hread⟩ := h.changeArray op fun items =>
    insertEach unique values (min (place.getD items.length) items.length) items
  exact ⟨doc', bind_eq_ok.mpr ⟨_, hvalues, hchange⟩, hread⟩

/-- **The items that do not meet a condition are kept.** -/
theorem pull (h : HoldsArray doc path items) (op : String) {condition : Json} {kept : List Json}
    (hkept : itemsNotMeeting condition items = .ok kept) :
    ∃ doc', doc.pull path op condition = ⟨doc', none⟩ ∧
      doc'.getPath? path = some (.array kept) := by
  obtain ⟨found, harray, hset⟩ := h.arrayAt op
  obtain ⟨doc', hwrite, hread⟩ := hset (.array kept)
  refine ⟨doc', ?_, hread⟩
  simp only [Object.pull, harray, hkept, hwrite]
  rfl

/-- The items that are equal to none of some values are kept. -/
theorem pullAll (h : HoldsArray doc path items) (op : String) (removed : List Json) :
    ∃ doc', doc.pullAll path op (.array removed) = .ok doc' ∧
      doc'.getPath? path = some (.array (items.filter fun item => !Json.isIn removed item)) :=
  h.changeArray op _

end HoldsArray

/-- A condition that every item answers keeps the items that answer no. -/
theorem itemsNotMeeting_eq_ok {condition : Json} (isMet : Json → Bool) {items : List Json}
    (h : ∀ item ∈ items, itemMeets item condition = .ok (isMet item)) :
    itemsNotMeeting condition items = .ok (items.filter fun item => !isMet item) := by
  induction items with
  | nil => rfl
  | cons item rest ih =>
    obtain ⟨hitem, hrest⟩ := List.forall_mem_cons.mp h
    rw [itemsNotMeeting, hitem, ih hrest, List.filter_cons]
    cases isMet item <;> rfl

/-! ### Updates with one entry -/

/-- **An update with one entry is that entry**, at the position that is found. -/
theorem Object.apply_single_at {op rawPath path : String} (hop : beginsWith "$" op = true)
    {doc query : Object} (hpath : positionalPath doc query rawPath = .ok path) (operand : Json)
    (inserting : Bool) :
    doc.apply query [(op, .object [(rawPath, operand)])] inserting =
      doc.applyOperator op path operand inserting := by
  have hpure : ∀ a : Applied, a.andThen (fun doc => ⟨doc, none⟩) = a := by
    rintro ⟨doc, _ | cause⟩ <;> rfl
  have hany : ([(op, Json.object [(rawPath, operand)])] : Object).any
      (fun e => beginsWith "$" e.1) = true := by simp [hop]
  rw [Object.apply, if_pos hany]
  simp only [applyOperators, applyEntries, hpath]
  exact (hpure _).trans (hpure _)

/-- The same for a path without a positional segment. -/
theorem Object.apply_single {op path : String} (hop : beginsWith "$" op = true)
    (hpath : "$" ∉ dottedSegments path) (doc query : Object) (operand : Json) (inserting : Bool) :
    doc.apply query [(op, .object [(path, operand)])] inserting =
      doc.applyOperator op path operand inserting :=
  apply_single_at hop (positionalPath_of_plain hpath doc query) operand inserting

end DocumentMapper
