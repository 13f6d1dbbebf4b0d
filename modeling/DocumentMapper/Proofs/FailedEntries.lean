import DocumentMapper.Proofs.ArrayUpdates
import DocumentMapper.Proofs.ContainerParts

/-!
# Entries that fail

The entries of an update take effect one after the other, and the first one that fails ends it.
What is left behind is what the entries in front of it have made. The entry itself leaves no trace,
apart from two cases: a removal of items has emptied its array when the condition cannot be
evaluated on an item, and a renaming has removed the old name when it cannot write the new one.

Writing at a path is no such case, although it creates what is missing on the way: where something
has been created, nothing can get in the way any more.

## Main results

* `Object.applyOperators_eq_failure`: an update that fails does so in one entry, or at an operator
  without entries;
* `Spoils`: what the two operators leave behind;
* `Object.applyOperator_failure`: no other operator changes anything before it fails;
* `Object.apply_failed_entry`: what an update that fails leaves behind.
-/

namespace DocumentMapper

open Text

/-! ### What was written is read back -/

namespace Json

/-- **What was written along a path is read back there**, through arrays too. -/
theorem getPath?_of_setSegments {path : String} {new : Json} {segments : List String}
    (hne : segments ≠ []) {j j' : Json} (hcontainer : j.isContainer = true)
    (h : setSegments path new segments j = .ok j') : j'.getPath? segments = some new := by
  induction segments generalizing j j' with
  | nil => exact absurd rfl hne
  | cons segment rest ih =>
    cases rest with
    | nil =>
      obtain ⟨part', hF, hchild⟩ := child?_changePart hcontainer h
      cases hF
      rw [getPath?_of_child? ((hchild segment).trans (if_pos (namesSame_self j segment)))]
      rfl
    | cons next rest =>
      rw [setSegments_cons_cons] at h
      obtain ⟨part', hF, hchild⟩ := child?_changePart hcontainer h
      rw [getPath?_of_child? ((hchild segment).trans (if_pos (namesSame_self j segment)))]
      rw [writeBelow_eq] at hF
      split at hF
      · rename_i hopened
        exact ih (List.cons_ne_nil next rest) hopened hF
      · cases hF

end Json

namespace Object

variable {doc doc' found left : Object} {path op : String} {new : Json} {items : List Json}
  {cause : StoreError}

theorem getPath?_of_setPath (h : doc.setPath path new = .ok doc') :
    doc'.getPath? path = some new :=
  Json.getPath?_of_setSegments (dottedSegments_ne_nil path) rfl (setPath_eq_ok.mp h)

/-- The array that was opened stands at its path. It was there, or it is empty. -/
theorem getPath?_of_arrayAt (h : doc.arrayAt path op = .ok (found, items)) :
    found.getPath? path = some (.array items) ∧ (found = doc ∨ items = []) := by
  unfold arrayAt at h
  split at h
  · obtain ⟨opened, hset, hpure⟩ := bind_eq_ok.mp h
    obtain ⟨rfl, rfl⟩ := Prod.mk.inj (Except.ok.inj hpure)
    exact ⟨getPath?_of_setPath hset, .inr rfl⟩
  · rename_i hget
    obtain ⟨rfl, rfl⟩ := Prod.mk.inj (Except.ok.inj h)
    exact ⟨hget, .inl rfl⟩
  · cases h
  · cases h

end Object

/-! ### Operators that fail -/

/-- What two operators leave of a document when they fail at a path. -/
inductive Spoils (doc : Object) (path : String) : String → Json → Object → Prop
  /-- The array has lost all its items when the condition on them cannot be evaluated. -/
  | pull {condition : Json} {items : List Json} {cause : StoreError} {left : Object}
      (harray : doc.getPath? path = some (.array items))
      (hcondition : itemsNotMeeting condition items = .error cause)
      (hleft : doc.setPath path (.array []) = .ok left) : Spoils doc path "$pull" condition left
  /-- The old name is gone when the new one cannot be written. -/
  | rename {target : String} {v : Json} {cause : StoreError} {left : Object}
      (hremove : doc.removePath? path = some (v, left))
      (hwrite : left.setPath target v = .error cause) (hchanged : left ≠ doc) :
      Spoils doc path "$rename" (.string target) left

/-- What is left behind is not what was there. -/
theorem Spoils.ne {doc left : Object} {path op : String} {operand : Json}
    (h : Spoils doc path op operand left) : left ≠ doc := by
  cases h with
  | pull harray hcondition hleft =>
    rintro rfl
    rw [Object.getPath?_of_setPath hleft] at harray
    cases harray
    cases hcondition
  | rename hremove hwrite hchanged => exact hchanged

theorem Applied.ofExcept_eq_failure {doc left : Object} {change : Except StoreError Object}
    {cause : StoreError} (h : Applied.ofExcept doc change = ⟨left, some cause⟩) : left = doc := by
  cases change with
  | ok doc' => cases h
  | error cause' => exact (Applied.mk.inj h).1.symm

namespace Object

variable {doc left : Object} {path op : String} {operand : Json} {inserting : Bool}
  {cause : StoreError}

theorem pull_failure (h : doc.pull path "$pull" operand = ⟨left, some cause⟩) :
    left = doc ∨ Spoils doc path "$pull" operand left := by
  unfold pull at h
  split at h
  · exact .inl (Applied.mk.inj h).1.symm
  · rename_i found items harray
    obtain ⟨hget, hfound⟩ := getPath?_of_arrayAt harray
    split at h
    · rename_i kept hkept
      obtain ⟨doc', hset, -⟩ := setPath_of_getPath? hget (.array kept)
      rw [hset] at h
      cases h
    · rename_i cause' hcondition
      obtain ⟨doc', hset, -⟩ := setPath_of_getPath? hget (.array [])
      rw [hset] at h
      obtain ⟨rfl, -⟩ := Applied.mk.inj h
      rcases hfound with rfl | rfl
      · exact .inr (.pull hget hcondition hset)
      · cases hcondition

theorem rename_failure (h : doc.rename path operand = ⟨left, some cause⟩) :
    left = doc ∨ Spoils doc path "$rename" operand left := by
  unfold rename at h
  split at h
  · rename_i target
    split at h
    · rename_i v rest hremove
      obtain rfl := Applied.ofExcept_eq_failure h
      by_cases hsame : left = doc
      · exact .inl hsame
      · cases hwrite : left.setPath target v with
        | ok doc' =>
          rw [hwrite] at h
          cases h
        | error cause' => exact .inr (.rename hremove hwrite hsame)
    · cases h
  · exact .inl (Applied.mk.inj h).1.symm

/-- **An operator that fails leaves the document as it was, or spoils it.** -/
theorem applyOperator_failure
    (h : doc.applyOperator op path operand inserting = ⟨left, some cause⟩) :
    left = doc ∨ Spoils doc path op operand left := by
  unfold applyOperator at h
  split at h
  case h_2 =>
    split at h
    · exact .inl (Applied.ofExcept_eq_failure h)
    · cases h
  case h_3 => cases h
  case h_10 => exact pull_failure h
  case h_13 => exact rename_failure h
  case h_14 => exact .inl (Applied.mk.inj h).1.symm
  all_goals exact .inl (Applied.ofExcept_eq_failure h)

/-! ### Updates that fail -/

variable {before filter : Object}

/-- Entries are applied in two parts, one after the other. -/
theorem applyEntries_append (first rest : List (String × Json)) (doc : Object) :
    applyEntries before filter op inserting (first ++ rest) doc =
      (applyEntries before filter op inserting first doc).andThen
        (applyEntries before filter op inserting rest) := by
  induction first generalizing doc with
  | nil => rfl
  | cons e first ih =>
    obtain ⟨rawPath, operand⟩ := e
    simp only [List.cons_append, applyEntries]
    split
    · rfl
    · rename_i path hpath
      cases happlied : doc.applyOperator op path operand inserting with
      | mk changed failure =>
        cases failure with
        | some cause => rfl
        | none => exact ih changed

/-- Entries that fail do so in one of them. -/
theorem applyEntries_eq_failure {entries : List (String × Json)} {doc left : Object}
    (h : applyEntries before filter op inserting entries doc = ⟨left, some cause⟩) :
    ∃ done path operand rest now, entries = done ++ (path, operand) :: rest ∧
      applyEntries before filter op inserting done doc = ⟨now, none⟩ ∧
      applyEntries before filter op inserting [(path, operand)] now = ⟨left, some cause⟩ := by
  induction entries generalizing doc with
  | nil => cases h
  | cons e rest ih =>
    obtain ⟨path, operand⟩ := e
    have happend : applyEntries before filter op inserting ([(path, operand)] ++ rest) doc = _ :=
      applyEntries_append [(path, operand)] rest doc
    rw [List.singleton_append, h] at happend
    cases hfirst : applyEntries before filter op inserting [(path, operand)] doc with
    | mk now failure =>
      rw [hfirst] at happend
      cases failure with
      | some cause' =>
        obtain ⟨rfl, rfl⟩ : left = now ∧ cause = cause' := by simpa [Applied.andThen] using happend
        exact ⟨[], path, operand, rest, doc, rfl, rfl, hfirst⟩
      | none =>
        obtain ⟨done, path', operand', rest', now', rfl, hdone, hlast⟩ := ih happend.symm
        refine ⟨(path, operand) :: done, path', operand', rest', now', rfl, ?_, hlast⟩
        rw [← List.singleton_append, applyEntries_append, hfirst]
        exact hdone

/-- Operators that fail do so in an entry of one of them, or at one that has no entries. -/
theorem applyOperators_eq_failure {update : Object} {doc left : Object}
    (h : applyOperators before filter inserting update doc = ⟨left, some cause⟩) :
    ∃ earlier op body later, update = earlier ++ (op, body) :: later ∧
      ((body.asObject? = none ∧
          applyOperators before filter inserting earlier doc = ⟨left, none⟩) ∨
        ∃ done path operand rest now, body = .object (done ++ (path, operand) :: rest) ∧
          applyOperators before filter inserting (earlier ++ [(op, .object done)]) doc =
            ⟨now, none⟩ ∧
          applyEntries before filter op inserting [(path, operand)] now = ⟨left, some cause⟩) := by
  induction update generalizing doc with
  | nil => cases h
  | cons e later ih =>
    obtain ⟨op, body⟩ := e
    cases hbody : body.asObject? with
    | none =>
      refine ⟨[], op, body, later, rfl, .inl ⟨hbody, ?_⟩⟩
      cases body with
      | object entries => cases hbody
      | _ =>
        rw [← (Applied.mk.inj h).1]
        rfl
    | some entries =>
      obtain rfl : body = .object entries := by
        cases body <;> cases hbody
        rfl
      simp only [applyOperators] at h
      cases hentries : applyEntries before filter op inserting entries doc with
      | mk now failure =>
        rw [hentries] at h
        cases failure with
        | some cause' =>
          obtain ⟨rfl, rfl⟩ : now = left ∧ cause' = cause := by simpa [Applied.andThen] using h
          obtain ⟨done, path, operand, rest, mid, rfl, hdone, hlast⟩ :=
            applyEntries_eq_failure hentries
          refine ⟨[], op, _, later, rfl, .inr ⟨done, path, operand, rest, mid, rfl, ?_, hlast⟩⟩
          simp [applyOperators, hdone, Applied.andThen]
        | none =>
          have hfirst : ∀ more, applyOperators before filter inserting
              ((op, .object entries) :: more) doc =
                applyOperators before filter inserting more now := by
            intro more
            simp [applyOperators, hentries, Applied.andThen]
          obtain ⟨earlier, op', body', later', rfl, hcases⟩ := ih h
          refine ⟨(op, .object entries) :: earlier, op', body', later', rfl, ?_⟩
          simpa only [List.cons_append, hfirst] using hcases

/-- An entry that fails leaves the document as it was, unless it spoils it at its path. -/
theorem applyEntries_single_failure {path : String} {now : Object}
    (h : applyEntries before filter op inserting [(path, operand)] now = ⟨left, some cause⟩) :
    left = now ∨ ∃ p, positionalPath before filter path = .ok p ∧ Spoils now p op operand left := by
  simp only [applyEntries] at h
  split at h
  · exact .inl (Applied.mk.inj h).1.symm
  · rename_i p hpath
    have hop : now.applyOperator op p operand inserting = ⟨left, some cause⟩ := by
      rw [← h]
      cases now.applyOperator op p operand inserting with
      | mk changed failure => cases failure <;> rfl
    exact (applyOperator_failure hop).imp_right fun hspoils => ⟨p, hpath, hspoils⟩

/-- **An update that fails leaves behind what the entries in front of the failing one have made**,
exactly if this one is neither a removal nor a renaming that fails halfway. -/
theorem apply_failed_entry {doc filter update left : Object} {inserting : Bool}
    {cause : StoreError} (h : doc.apply filter update inserting = ⟨left, some cause⟩) :
    ∃ earlier op body later, update = earlier ++ (op, body) :: later ∧
      ((body.asObject? = none ∧
          applyOperators doc filter inserting earlier doc = ⟨left, none⟩) ∨
        ∃ done path operand rest now, body = .object (done ++ (path, operand) :: rest) ∧
          applyOperators doc filter inserting (earlier ++ [(op, .object done)]) doc = ⟨now, none⟩ ∧
          applyEntries doc filter op inserting [(path, operand)] now = ⟨left, some cause⟩ ∧
          (left = now ↔ ¬ ∃ p, positionalPath doc filter path = .ok p ∧
            Spoils now p op operand left)) := by
  unfold apply at h
  split at h
  · obtain ⟨earlier, op, body, later, hupdate, hbody | hentry⟩ := applyOperators_eq_failure h
    · exact ⟨earlier, op, body, later, hupdate, .inl hbody⟩
    · obtain ⟨done, path, operand, rest, now, hbody, hdone, hlast⟩ := hentry
      refine ⟨earlier, op, body, later, hupdate, .inr
        ⟨done, path, operand, rest, now, hbody, hdone, hlast, fun hsame => ?_, fun hnot => ?_⟩⟩
      · rintro ⟨p, -, hspoils⟩
        exact hspoils.ne hsame
      · exact (applyEntries_single_failure hlast).resolve_right hnot
  · cases h

/-- A crate with two numbers and a list of labels. -/
def labelledCrate : Object :=
  [("width", .ofInt64 1), ("height", .ofInt64 2), ("labels", .array [.ofInt64 5])]

/-- An update of which the third entry fails. -/
def crateUpdate : Object :=
  [("$set", .object [("depth", .ofInt64 3)]),
    ("$inc", .object [("width", .ofInt64 1), ("labels", .ofInt64 1), ("height", .ofInt64 1)])]

theorem apply_failed_entry_crate : ∃ left,
    labelledCrate.apply [] crateUpdate false = ⟨left, some (.numeric "$inc")⟩ ∧
    left = labelledCrate.insert "width" (.ofInt64 2) ++ [("depth", .ofInt64 3)] ∧
    ∃ earlier op body later, crateUpdate = earlier ++ (op, body) :: later ∧
      ((body.asObject? = none ∧
          applyOperators labelledCrate [] false earlier labelledCrate = ⟨left, none⟩) ∨
        ∃ done path operand rest now, body = .object (done ++ (path, operand) :: rest) ∧
          applyOperators labelledCrate [] false (earlier ++ [(op, .object done)]) labelledCrate =
            ⟨now, none⟩ ∧
          applyEntries labelledCrate [] op false [(path, operand)] now =
            ⟨left, some (.numeric "$inc")⟩ ∧
          (left = now ↔ ¬ ∃ p, positionalPath labelledCrate [] path = .ok p ∧
            Spoils now p op operand left)) := by
  have happly : labelledCrate.apply [] crateUpdate false =
      ⟨labelledCrate.insert "width" (.ofInt64 2) ++ [("depth", .ofInt64 3)],
        some (.numeric "$inc")⟩ := rfl
  exact ⟨_, happly, rfl, apply_failed_entry happly⟩

/-- A removal whose condition has an unknown operator empties the array, and a renaming to a name
below a number loses the value. -/
theorem failed_entry_not_undone :
    labelledCrate.apply [] [("$pull", .object [("labels", .object [("$foo", .ofInt64 1)])])] false =
      ⟨labelledCrate.insert "labels" (.array []), some (.filterOperator "$foo")⟩ ∧
    labelledCrate.insert "labels" (.array []) ≠ labelledCrate ∧
    labelledCrate.apply [] [("$rename", .object [("width", .string "height.low")])] false =
      ⟨labelledCrate.erase "width", some (.scalarPart "height" "height.low")⟩ ∧
    labelledCrate.erase "width" ≠ labelledCrate := by
  refine ⟨rfl, fun h => ?_, rfl, fun h => ?_⟩
  · have hlabels : Entries.get? (labelledCrate.insert "labels" (.array [])) "labels" =
        labelledCrate.get? "labels" := congrArg (Entries.get? · "labels") h
    cases hlabels
  · cases congrArg List.length h

end Object

end DocumentMapper
