import DocumentMapper.Json.Path
import DocumentMapper.Proofs.EntriesLaws

/-!
# Laws of reading and writing along a path

Reading and writing along the segments of a path, one segment at a time: `Json.child?` reads a part
and `Json.changePart` writes it.

## Main results

* `Json.setSegments_getPath?`: writing what is there already changes nothing;
* `Object.get?_setPath_of_ne`, `Object.get?_removePath_of_ne`: a path leaves the keys alone that it
  does not begin with.
-/

namespace DocumentMapper

open Text

namespace Json

/-! ### One segment -/

theorem reach_object (segment : String) (rest : List String) (es : Object) :
    reach (segment :: rest) (object es) =
      match Entries.get? es segment with
      | some v => reach rest v
      | none => [] :=
  rfl

theorem changePart_object (path segment : String) (f : Json → Except StoreError Json)
    (es : Object) :
    changePart path segment f (object es) = (do
      let v ← f ((Entries.get? es segment).getD null)
      return object (Entries.insert es segment v)) :=
  rfl

theorem changePart_array (path segment : String) (f : Json → Except StoreError Json)
    (items : List Json) :
    changePart path segment f (array items) =
      match position? segment with
      | some i => do
        let v ← f (items[i]?.getD null)
        return array (putItem items i v)
      | none => throw (.arrayPart segment path) :=
  rfl

theorem replacePart_object (segment : String) (new : Json) (es : Object) :
    replacePart segment new (object es) = object (Entries.insert es segment new) :=
  rfl

theorem replacePart_array (segment : String) (new : Json) (items : List Json) :
    replacePart segment new (array items) =
      match position? segment with
      | some i => array (items.set i new)
      | none => array items :=
  rfl

/-- **A value with a part** is an object with the key, or an array that reaches to the position. -/
theorem cases_of_child? {j part : Json} {segment : String} (h : j.child? segment = some part) :
    (∃ es, j = object es ∧ Entries.get? es segment = some part) ∨
      ∃ items i, j = array items ∧ position? segment = some i ∧ items[i]? = some part := by
  cases j with
  | object es => exact .inl ⟨es, rfl, h⟩
  | array items =>
    obtain ⟨i, hpos, hitem⟩ := Option.bind_eq_some_iff.mp h
    exact .inr ⟨items, i, rfl, hpos, hitem⟩
  | _ => cases h

/-- A value with a part is a container. -/
theorem isContainer_of_child? {j part : Json} {segment : String}
    (h : j.child? segment = some part) : (∃ es, j = object es) ∨ ∃ items, j = array items :=
  (cases_of_child? h).imp (fun ⟨es, hes, _⟩ => ⟨es, hes⟩) fun ⟨items, _, hitems, _⟩ =>
    ⟨items, hitems⟩

/-- Writing what is there already changes nothing. -/
theorem changePart_child? {path segment : String} {j part : Json}
    {f : Json → Except StoreError Json} (hchild : j.child? segment = some part) (hf : f part = .ok part) :
    changePart path segment f j = .ok j := by
  obtain ⟨es, rfl, hget⟩ | ⟨items, i, rfl, hpos, hget⟩ := cases_of_child? hchild
  · simp only [changePart_object, hget, Option.getD_some, hf]
    exact congrArg (Except.ok ∘ object) (Entries.insert_of_get? hget)
  · obtain ⟨hi, hpart⟩ := List.getElem?_eq_some_iff.mp hget
    have hsame : putItem items i part = items := by simp [putItem, hi, ← hpart]
    simp only [changePart_array, hpos, hget, Option.getD_some, hf]
    exact congrArg (Except.ok ∘ array) hsame

/-- **Writing what a path leads to changes nothing.** -/
theorem setSegments_getPath? (path : String) {segments : List String} {j v : Json}
    (hne : segments ≠ []) (h : j.getPath? segments = some v) :
    setSegments path v segments j = .ok j := by
  induction segments generalizing j with
  | nil => exact absurd rfl hne
  | cons segment rest ih =>
    simp only [getPath?] at h
    cases hchild : j.child? segment with
    | none => simp [hchild] at h
    | some part =>
      rw [hchild, Option.bind_some] at h
      cases rest with
      | nil =>
        simp only [getPath?, Option.some.injEq] at h
        subst h
        exact changePart_child? hchild rfl
      | cons next rest =>
        have hstep := ih (List.cons_ne_nil next rest) h
        refine changePart_child? hchild ?_
        simp only [getPath?] at h
        cases hnext : part.child? next with
        | none => simp [hnext] at h
        | some inner =>
          rcases isContainer_of_child? hnext with ⟨es, rfl⟩ | ⟨items, rfl⟩
          · exact hstep
          · exact hstep

end Json

namespace Object

/-! ### Other keys -/

/-- At a path of one segment a filter sees the value of a key. -/
theorem lookup_of_segment {path key : String} (hpath : dottedSegments path = [key])
    (doc : Object) : doc.lookup path = (doc.get? key).toList := by
  rw [lookup, hpath, Json.reach_object]
  cases Entries.get? doc key <;> rfl

/-- Writing along a path that begins with another key leaves a key alone. -/
theorem get?_setPath_of_ne {doc changed : Object} {path first key : String} {rest : List String}
    {new : Json} (hpath : dottedSegments path = first :: rest) (hfirst : first ≠ key)
    (h : doc.setPath path new = .ok changed) : changed.get? key = doc.get? key := by
  have hwrite : ∀ f, ∃ result : Except StoreError Json,
      Json.changePart path first f (.object doc) =
        result.map fun v => .object (Entries.insert doc first v) := by
    intro f
    refine ⟨f ((Entries.get? doc first).getD .null), ?_⟩
    rw [Json.changePart_object]
    cases f ((Entries.get? doc first).getD .null) <;> rfl
  have hsegments : ∃ result : Except StoreError Json,
      Json.setSegments path new (first :: rest) (.object doc) =
        result.map fun v => .object (Entries.insert doc first v) := by
    cases rest with
    | nil => exact hwrite _
    | cons next rest => exact hwrite _
  obtain ⟨result, hresult⟩ := hsegments
  simp only [setPath, hpath, hresult] at h
  cases result with
  | error cause => cases h
  | ok v =>
    cases h
    exact Entries.get?_insert_of_ne _ _ hfirst

/-- Removing along a path that begins with another key leaves a key alone. -/
theorem get?_removePath_of_ne {doc : Object} {path first key : String} {rest : List String}
    (hpath : dottedSegments path = first :: rest) (hfirst : first ≠ key) :
    (doc.removePath path).get? key = doc.get? key := by
  unfold removePath removePath?
  rw [hpath]
  cases rest with
  | nil =>
    simp only [Json.removeSegments?]
    cases hget : Entries.get? doc first with
    | none => rfl
    | some v => exact Entries.get?_erase_of_ne doc hfirst
  | cons next rest =>
    simp only [Json.removeSegments?, Json.child?]
    cases hget : Entries.get? doc first with
    | none => rfl
    | some part =>
      cases hremove : Json.removeSegments? (next :: rest) part with
      | none => simp [hremove]
      | some removed =>
        simp only [hremove, Option.bind_some, Option.bind_eq_bind, Json.replacePart_object]
        exact Entries.get?_insert_of_ne _ _ hfirst

end Object

end DocumentMapper
