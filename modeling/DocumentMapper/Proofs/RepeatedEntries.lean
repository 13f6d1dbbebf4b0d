import DocumentMapper.Proofs.ArrayUpdates
import DocumentMapper.Proofs.FailedEntries
import DocumentMapper.Proofs.RecordKeys

/-!
# Entries that are applied again

An entry that says what is to stand at its path, and not by how much it is to change, has nothing
left to do once it was applied. An update that was lost on the way back can be sent again: it leaves
the document as it is, with its entries in the same order, and reports that nothing has changed.

Each operator comes to rest in its own way. A value that was written, or an array whose items were
sorted out, is written over by itself. What was removed is not there any more, and an item that was
removed from its position is null already.

## Main results

* `Json.withoutPath_withoutPath`: removing twice is removing once;
* `insertEach_of_isIn`, `isIn_insertEach`: values that are to be unique are inserted once;
* `Object.applyOperator_again`: every operator of `settlingOperators` comes to rest;
* `Object.apply_again`: an update with one such entry can be applied again.
-/

namespace DocumentMapper

open Text

/-- The operators whose entries have nothing left to do when they were applied. -/
def settlingOperators : List String :=
  ["$set", "$unset", "$min", "$max", "$addToSet", "$pull", "$pullAll"]

/-! ### Removing -/

namespace Json

theorem withoutPath_singleton_twice {j : Json} (hj : j.WellFormed) (segment : String) :
    withoutPath [segment] (withoutPath [segment] j) = withoutPath [segment] j := by
  cases hchild : j.child? segment with
  | none => rw [withoutPath_singleton_none hchild, withoutPath_singleton_none hchild]
  | some part =>
    rcases isContainer_of_child? hchild with ⟨es, rfl⟩ | ⟨items, rfl⟩
    · -- A key that was erased has no value, since no other entry has it.
      have hgone : (object (Entries.erase es segment)).child? segment = none := by
        simp [child?, Entries.get?_erase (wellFormed_object.mp hj).1]
      rw [withoutPath_entry hchild, withoutPath_singleton_none hgone]
    · -- An item that was removed is null, which makes way for null.
      obtain ⟨i, hposition, hitem⟩ := Option.bind_eq_some_iff.mp hchild
      have hlt := (List.getElem?_eq_some_iff.mp hitem).1
      have hreplaced : replacePart segment null (array items) = array (items.set i null) := by
        simp [replacePart_array, hposition]
      have hagain : (array (items.set i null)).child? segment = some null := by
        simp [child?, hposition, hlt]
      rw [withoutPath_item hchild, hreplaced, withoutPath_item hagain, replacePart_child? hagain]

/-- **Removing twice is removing once.** -/
theorem withoutPath_withoutPath (segments : List String) {j : Json} (hj : j.WellFormed) :
    withoutPath segments (withoutPath segments j) = withoutPath segments j := by
  induction segments generalizing j with
  | nil => rfl
  | cons segment rest ih =>
    cases rest with
    | nil => exact withoutPath_singleton_twice hj segment
    | cons next rest =>
      cases hchild : j.child? segment with
      | none => simp only [withoutPath_cons_cons, hchild]
      | some part =>
        have hself : (replacePart segment (withoutPath (next :: rest) part) j).child? segment =
            some (withoutPath (next :: rest) part) :=
          (child?_replacePart_of_child? hchild _ segment).trans (if_pos (namesSame_self j segment))
        simp only [withoutPath_cons_cons, hchild, hself, ih (wellFormed_child? hj hchild),
          replacePart_child? hself]

end Json

/-! ### Items that stay -/

/-- Among some items is one that is equal to a value, if it was before values were inserted. -/
theorem Json.isIn_insertIdx {items : List Json} {j : Json} (h : Json.isIn items j = true)
    (place : Nat) (v : Json) : Json.isIn (items.insertIdx place v) j = true := by
  obtain ⟨item, hitem, hequal⟩ := List.any_eq_true.mp h
  refine List.any_eq_true.mpr ⟨item, ?_, hequal⟩
  rcases Nat.lt_or_ge items.length place with hlt | hle
  · rwa [List.insertIdx_of_length_lt hlt]
  · exact (List.mem_insertIdx hle).mpr (.inr hitem)

theorem Json.isIn_insertEach {unique : Bool} {values items : List Json} {j : Json}
    (h : Json.isIn items j = true) (place : Nat) :
    Json.isIn (insertEach unique values place items) j = true := by
  induction values generalizing place items with
  | nil => exact h
  | cons v values ih =>
    rw [insertEach]
    split
    · exact ih h place
    · exact ih (Json.isIn_insertIdx h place v) (place + 1)

/-- **Values that were inserted are among the items**, or else an equal item was there. -/
theorem isIn_insertEach {values items : List Json} {place : Nat} (hplace : place ≤ items.length)
    (hvalues : ∀ v ∈ values, v.WellFormed) :
    ∀ v ∈ values, Json.isIn (insertEach true values place items) v = true := by
  induction values generalizing place items with
  | nil => simp
  | cons first values ih =>
    obtain ⟨hfirst, hrest⟩ := List.forall_mem_cons.mp hvalues
    rw [insertEach, Bool.true_and]
    split
    · rename_i hin
      exact List.forall_mem_cons.mpr ⟨Json.isIn_insertEach hin place, ih hplace hrest⟩
    · have hin : Json.isIn (items.insertIdx place first) first = true :=
        List.any_eq_true.mpr ⟨first, (List.mem_insertIdx hplace).mpr (.inl rfl), hfirst.equal_self⟩
      have hlength : place + 1 ≤ (items.insertIdx place first).length := by
        rw [List.length_insertIdx_of_le_length hplace]
        omega
      exact List.forall_mem_cons.mpr ⟨Json.isIn_insertEach hin _, ih hlength hrest⟩

/-- Nothing is inserted where an equal item is there for every value. -/
theorem insertEach_of_isIn {values items : List Json} (place : Nat)
    (h : ∀ v ∈ values, Json.isIn items v = true) : insertEach true values place items = items := by
  induction values with
  | nil => rfl
  | cons v values ih =>
    obtain ⟨hv, hrest⟩ := List.forall_mem_cons.mp h
    rw [insertEach, hv, Bool.true_and, if_pos rfl, ih hrest]

/-- The items that were kept are kept again. -/
theorem itemsNotMeeting_again {condition : Json} {items kept : List Json}
    (h : itemsNotMeeting condition items = .ok kept) :
    itemsNotMeeting condition kept = .ok kept := by
  induction items generalizing kept with
  | nil =>
    cases h
    rfl
  | cons item rest ih =>
    rw [itemsNotMeeting] at h
    obtain ⟨met, hmet, h⟩ := bind_eq_ok.mp h
    obtain ⟨others, hothers, h⟩ := bind_eq_ok.mp h
    cases h
    cases met with
    | true => exact ih hothers
    | false =>
      rw [if_neg Bool.false_ne_true, itemsNotMeeting, hmet, ih hothers]
      rfl

/-! ### Operators that come to rest -/

namespace Object

variable {doc doc' : Object} {path op : String} {operand : Json}

/-- Writing what is there already changes nothing. -/
theorem setPath_getPath? {v : Json} (h : doc.getPath? path = some v) :
    doc.setPath path v = .ok doc :=
  setPath_eq_ok.mpr (Json.setSegments_getPath? path (dottedSegments_ne_nil path) h)

/-- An array that is there is opened as it is. -/
theorem arrayAt_getPath? {items : List Json} (h : doc.getPath? path = some (.array items)) :
    doc.arrayAt path op = .ok (doc, items) := by
  rw [arrayAt, h]
  rfl

/-- What was written is written again. -/
theorem setPath_again_self {v : Json} (h : doc.setPath path v = .ok doc') :
    doc'.setPath path v = .ok doc' :=
  setPath_getPath? (getPath?_of_setPath h)

/-- What was removed stays removed. -/
theorem removePath_removePath (hdoc : doc.WellFormed) :
    (doc.removePath path).removePath path = doc.removePath path := by
  have htwice := Json.withoutPath_withoutPath (dottedSegments path) (j := .object doc) hdoc
  rw [← object_removePath, ← object_removePath] at htwice
  exact Json.object.inj htwice

/-- An operand that was written is written again or kept, whatever its order to itself. -/
theorem setIfOrdered_again {wanted : Ordering} (h : doc.setIfOrdered path wanted operand = .ok doc') :
    doc'.setIfOrdered path wanted operand = .ok doc' := by
  have hwritten : doc.setPath path operand = .ok doc' →
      doc'.setIfOrdered path wanted operand = .ok doc' := by
    intro hset
    simp only [setIfOrdered, getPath?_of_setPath hset, setPath_again_self hset]
    split <;> rfl
  cases hcurrent : doc.getPath? path with
  | none =>
    simp only [setIfOrdered, hcurrent] at h
    exact hwritten h
  | some current =>
    simp only [setIfOrdered, hcurrent] at h
    split at h
    · exact hwritten h
    · rename_i hkeep
      obtain rfl := Except.ok.inj h
      simp only [setIfOrdered, hcurrent, hkeep]
      rfl

/-- An array whose items have been changed stays as it is, if the change has come to rest. -/
theorem changeArray_again {f : List Json → List Json} (hf : ∀ items, f (f items) = f items)
    (h : doc.changeArray path op f = .ok doc') : doc'.changeArray path op f = .ok doc' := by
  obtain ⟨⟨found, items⟩, -, hwrite⟩ := bind_eq_ok.mp h
  have hread := getPath?_of_setPath hwrite
  refine bind_eq_ok.mpr ⟨(doc', f items), arrayAt_getPath? hread, ?_⟩
  show doc'.setPath path (.array (f (f items))) = .ok doc'
  rw [hf]
  exact setPath_getPath? hread

/-- Values that are pushed to be unique are pushed once. -/
theorem push_again (hoperand : operand.WellFormed) (h : doc.push path op true operand = .ok doc') :
    doc'.push path op true operand = .ok doc' := by
  obtain ⟨⟨values, place⟩, hvalues, hchange⟩ := bind_eq_ok.mp h
  refine bind_eq_ok.mpr ⟨_, hvalues, changeArray_again (fun items => ?_) hchange⟩
  have hwellFormed : ∀ v ∈ values, v.WellFormed := kept_wellFormed.pushedValues hoperand hvalues
  exact insertEach_of_isIn _ (isIn_insertEach (Nat.min_le_right _ _) hwellFormed)

/-- Items that were pulled are not there any more. -/
theorem pull_again (h : doc.pull path op operand = ⟨doc', none⟩) :
    doc'.pull path op operand = ⟨doc', none⟩ := by
  unfold pull at h
  split at h
  · cases h
  · rename_i found items _
    split at h
    · rename_i kept hkept
      have hread := getPath?_of_setPath (Applied.ofExcept_eq_iff.mp h)
      simp only [pull, arrayAt_getPath? hread, itemsNotMeeting_again hkept, setPath_getPath? hread]
      rfl
    · cases h

/-- The same for items that are equal to one of some values. -/
theorem pullAll_again (h : doc.pullAll path op operand = .ok doc') :
    doc'.pullAll path op operand = .ok doc' := by
  unfold pullAll at h ⊢
  split at h
  · exact changeArray_again (fun items => by simp) h
  · cases h

/-- **Every settling operator comes to rest.** -/
theorem applyOperator_again {inserting : Bool} (hop : op ∈ settlingOperators) (hdoc : doc.WellFormed)
    (hoperand : operand.WellFormed)
    (h : doc.applyOperator op path operand inserting = ⟨doc', none⟩) (inserting' : Bool) :
    doc'.applyOperator op path operand inserting' = ⟨doc', none⟩ := by
  simp only [settlingOperators, List.mem_cons, List.not_mem_nil, or_false] at hop
  rcases hop with rfl | rfl | rfl | rfl | rfl | rfl | rfl <;>
    simp only [applyOperator, Applied.ofExcept_eq_iff] at h ⊢
  · exact setPath_again_self h
  · obtain rfl := (Applied.mk.inj h).1
    rw [removePath_removePath hdoc]
  · exact setIfOrdered_again h
  · exact setIfOrdered_again h
  · exact push_again hoperand h
  · exact pull_again h
  · exact pullAll_again h

/-- **An update with one such entry can be applied again**: it succeeds, reports that nothing has
changed and leaves the document as it is. The path has no position to be found; the filter and
whether the document is being inserted make no difference. -/
theorem apply_again {filter : Object} {inserting : Bool} (hop : op ∈ settlingOperators)
    (hpath : "$" ∉ dottedSegments path) (hdoc : doc.WellFormed) (hoperand : operand.WellFormed)
    (h : doc.apply filter [(op, .object [(path, operand)])] inserting = ⟨doc', none⟩)
    (filter' : Object) (inserting' : Bool) :
    doc'.apply filter' [(op, .object [(path, operand)])] inserting' = ⟨doc', none⟩ ∧
      (doc'.apply filter' [(op, .object [(path, operand)])] inserting').result doc' =
        .ok false := by
  have hdollar : beginsWith "$" op = true := by
    simp only [settlingOperators, List.mem_cons, List.not_mem_nil, or_false] at hop
    rcases hop with rfl | rfl | rfl | rfl | rfl | rfl | rfl <;> rfl
  have hwellFormed : doc'.WellFormed := by
    have hupdate : Object.WellFormed [(op, .object [(path, operand)])] := by
      simpa [Object.WellFormed, Json.wellFormed_object] using hoperand
    have hafter := wellFormed_apply hdoc hupdate filter inserting
    rwa [h] at hafter
  rw [apply_single hdollar hpath] at h
  have hagain : doc'.apply filter' [(op, .object [(path, operand)])] inserting' = ⟨doc', none⟩ := by
    rw [apply_single hdollar hpath]
    exact applyOperator_again hop hdoc hoperand h inserting'
  have hsame : doc'.equal doc' = true := Json.WellFormed.equal_self (j := .object doc') hwellFormed
  refine ⟨hagain, ?_⟩
  rw [hagain, Applied.result, hsame]
  rfl

/-- Labels in front of those that a crate has. One of them it has already, and one is listed twice. -/
def frontLabels : Json :=
  .object [("$each", .array [.ofInt64 5, .ofInt64 6, .ofInt64 6]), ("$position", .ofInt64 0)]

theorem apply_again_crate :
    labelledCrate.WellFormed ∧ frontLabels.WellFormed ∧ ∃ labelled : Object,
      labelled = labelledCrate.insert "labels" (.array [.ofInt64 6, .ofInt64 5]) ∧
      labelledCrate.apply [] [("$addToSet", .object [("labels", frontLabels)])] false =
        ⟨labelled, none⟩ ∧
      labelled.apply [] [("$addToSet", .object [("labels", frontLabels)])] false =
        ⟨labelled, none⟩ ∧
      (labelled.apply [] [("$addToSet", .object [("labels", frontLabels)])] false).result labelled =
        .ok false := by
  have hnumber : ∀ n, (Json.ofInt64 n).WellFormed := fun _ => trivial
  have hdoc : labelledCrate.WellFormed := by
    simp [labelledCrate, Object.WellFormed, Json.wellFormed_object, Json.wellFormed_array, hnumber]
  have hlabels : frontLabels.WellFormed := by
    simp [frontLabels, Json.wellFormed_object, Json.wellFormed_array, hnumber]
  have happly : labelledCrate.apply [] [("$addToSet", .object [("labels", frontLabels)])] false =
      ⟨labelledCrate.insert "labels" (.array [.ofInt64 6, .ofInt64 5]), none⟩ := rfl
  exact ⟨hdoc, hlabels, _, rfl, happly,
    apply_again (by decide) (by decide) hdoc hlabels happly [] false⟩

end Object

end DocumentMapper
