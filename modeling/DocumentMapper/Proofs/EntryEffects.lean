import DocumentMapper.Proofs.NamedPaths
import DocumentMapper.Proofs.PatchEdits

/-!
# What an entry of an update does

An entry of an update looks at what stands at its path. It keeps it, writes something in its place
or removes it, or it fails. Along a path of names what an entry does is written once: an operator
that opens an array first and then writes into it comes to the same.

## Main results

* `UpdateEntry.act_eq_iff`: an entry succeeds exactly when it has an effect on what stands at its
  path and the effect can be carried out;
* `Effect.content_carryOut`: carrying out an effect makes an edit of the content.
-/

namespace DocumentMapper

open Number Text

/-- One entry of an update document. -/
structure UpdateEntry where
  operator : String
  path : String
  operand : Json

/-- What an entry does at its path. -/
inductive Effect where
  | keep
  | write (v : Json)
  | remove

namespace Effect

/-- The document after an effect. -/
def carryOut (path : String) (doc : Object) : Effect → Except StoreError Object
  | keep => .ok doc
  | write v => doc.setPath path v
  | remove => .ok (doc.removePath path)

/-- The edit that an effect makes, if it makes one. -/
def edits (segments : List String) : Effect → List (List String × Edit)
  | keep => []
  | write v => [(segments, .set v.content)]
  | remove => [(segments, .unset)]

/-- An effect makes its edit, and can be carried out exactly when the edit can be made. -/
theorem content_carryOut (x : Effect) (path : String) {doc : Object} (hdoc : doc.WellFormed) :
    (x.carryOut path doc).toOption.map (fun doc' => some doc'.content) =
      runEdits (x.edits (dottedSegments path)) (some doc.content) := by
  cases x with
  | keep => rfl
  | write v =>
    simp only [carryOut, edits, runEdits, Object.content_setPath]
    exact (Option.bind_fun_some _).symm
  | remove =>
    simp only [carryOut, edits, runEdits, Object.content_removePath hdoc]
    rfl

/-- The edits of an effect are made at its path. -/
theorem fst_of_mem_edits {x : Effect} {segments : List String} {edit : List String × Edit}
    (h : edit ∈ x.edits segments) : edit.1 = segments := by
  cases x <;> simp [edits] at h
  · rw [h]
  · rw [h]

end Effect

/-- The items of what an operator takes for an array: a missing array has none. -/
def itemsOf? : Option Json → Option (List Json)
  | none => some []
  | some (.array items) => some items
  | some _ => none

/-- The effect of a removal: there may be nothing to remove. -/
def removalEffect : Option Json → Effect
  | some _ => .remove
  | none => .keep

/-- The effect of a comparison: the operand is written where nothing stands or it has the wanted
order to what stands there. -/
def orderedEffect (wanted : Ordering) (operand : Json) (current : Option Json) : Effect :=
  match current with
  | some v => if operand.compare? v == some wanted then .write operand else .keep
  | none => .write operand

/-- The effect of inserting values into an array. -/
def pushEffect? (unique : Bool) (operand : Json) (current : Option Json) : Option Effect :=
  match pushedValues operand, itemsOf? current with
  | .ok (values, place), some items =>
    some (.write (.array
      (insertEach unique values (min (place.getD items.length) items.length) items)))
  | _, _ => none

namespace UpdateEntry

/-- The segments of the path of an entry. -/
def segments (e : UpdateEntry) : List String :=
  dottedSegments e.path

/-- What stands at the path of an entry. -/
def current (e : UpdateEntry) (doc : Object) : Option Json :=
  doc.getPath? e.path

/-- Applies an entry. -/
def act (inserting : Bool) (e : UpdateEntry) (doc : Object) : Applied :=
  doc.applyOperator e.operator e.path e.operand inserting

/-- The effect of an entry on what stands at its path, if it has one. Renaming has two paths and
is left out. -/
def effect? (inserting : Bool) (e : UpdateEntry) (current : Option Json) : Option Effect :=
  match e.operator with
  | "$set" => some (.write e.operand)
  | "$setOnInsert" => some (if inserting then .write e.operand else .keep)
  | "$unset" => some (removalEffect current)
  | "$inc" =>
    (combineNumbers "$inc" (· + ·) Binary64.add? (current.getD (.ofInt64 0)) e.operand).toOption.map
      .write
  | "$mul" =>
    (combineNumbers "$mul" (· * ·) Binary64.mul? (current.getD (.ofInt64 0)) e.operand).toOption.map
      .write
  | "$min" => some (orderedEffect .lt e.operand current)
  | "$max" => some (orderedEffect .gt e.operand current)
  | "$push" => pushEffect? false e.operand current
  | "$addToSet" => pushEffect? true e.operand current
  | "$pull" =>
    (itemsOf? current).bind fun items =>
      (itemsNotMeeting e.operand items).toOption.map fun kept => .write (.array kept)
  | "$pullAll" =>
    e.operand.asArray?.bind fun removed => (itemsOf? current).map fun items =>
      .write (.array (items.filter fun item => !Json.isIn removed item))
  | "$pop" =>
    (itemsOf? current).map fun items => .write (.array
      (if e.operand.asInt64? == some (-1) then items.drop 1 else items.dropLast))
  | _ => none

end UpdateEntry

theorem toOption_eq_some {ε α : Type} {x : Except ε α} {a : α} :
    x.toOption = some a ↔ x = .ok a := by
  cases x <;> simp [Except.toOption]

/-- A change was made without a failure. -/
theorem Applied.ofExcept_eq_iff {doc doc' : Object} {change : Except StoreError Object} :
    Applied.ofExcept doc change = ⟨doc', none⟩ ↔ change = .ok doc' := by
  cases change <;> simp [Applied.ofExcept]

namespace Object

variable {doc doc' : Object} {path op : String}

/-! ### Arrays -/

/-- Opening an array does not change what a write at its path comes to. -/
theorem arrayAt_eq_ok (hpath : Named (dottedSegments path)) {found : Object} {items : List Json}
    (h : doc.arrayAt path op = .ok (found, items)) :
    itemsOf? (doc.getPath? path) = some items ∧
      ∀ v, found.setPath path v = .ok doc' ↔ doc.setPath path v = .ok doc' := by
  unfold arrayAt at h
  split at h
  · rename_i hmissing
    obtain ⟨opened, hset, heq⟩ := bind_eq_ok.mp h
    obtain ⟨rfl, rfl⟩ := Prod.mk.inj (Except.ok.inj heq)
    refine ⟨by rw [hmissing]; rfl, fun v => ?_⟩
    obtain ⟨d, hd, hagain⟩ := setPath_again hpath hset v
    rw [hd, hagain]
  · rename_i hfound
    obtain ⟨rfl, rfl⟩ := Prod.mk.inj (Except.ok.inj h)
    exact ⟨by rw [hfound]; rfl, fun v => Iff.rfl⟩
  · cases h
  · cases h

/-- Where a path can be written, an array can be opened. -/
theorem arrayAt_of_setPath (op : String) (hpath : Named (dottedSegments path)) {items : List Json}
    {v : Json} (hitems : itemsOf? (doc.getPath? path) = some items)
    (hset : doc.setPath path v = .ok doc') :
    ∃ found, doc.arrayAt path op = .ok (found, items) := by
  unfold arrayAt
  cases hfound : doc.getPath? path with
  | none =>
    rw [hfound] at hitems
    cases hitems
    obtain ⟨d, hd, -⟩ := setPath_again hpath hset (.array [])
    exact ⟨d, by rw [hd]; rfl⟩
  | some found =>
    rw [hfound] at hitems
    cases found with
    | array items =>
      cases hitems
      exact ⟨doc, rfl⟩
    | null => cases hitems
    | bool b => cases hitems
    | whole n => cases hitems
    | float x => cases hitems
    | string t => cases hitems
    | object es => cases hitems

/-- Changing the items of an array writes the array once. -/
theorem changeArray_eq_ok (hpath : Named (dottedSegments path)) {f : List Json → List Json} :
    doc.changeArray path op f = .ok doc' ↔
      ∃ items, itemsOf? (doc.getPath? path) = some items ∧
        doc.setPath path (.array (f items)) = .ok doc' := by
  constructor
  · intro h
    obtain ⟨⟨found, items⟩, harray, hwrite⟩ := bind_eq_ok.mp h
    obtain ⟨hitems, hset⟩ := arrayAt_eq_ok hpath harray
    exact ⟨items, hitems, (hset _).mp hwrite⟩
  · rintro ⟨items, hitems, hwrite⟩
    obtain ⟨found, harray⟩ := arrayAt_of_setPath op hpath hitems hwrite
    obtain ⟨-, hset⟩ := arrayAt_eq_ok hpath harray
    exact bind_eq_ok.mpr ⟨_, harray, (hset _).mpr hwrite⟩

/-- The items that stay after a removal are written once. -/
theorem pull_eq_iff (hpath : Named (dottedSegments path)) {condition : Json} :
    doc.pull path op condition = ⟨doc', none⟩ ↔
      ∃ x, ((itemsOf? (doc.getPath? path)).bind fun items =>
          (itemsNotMeeting condition items).toOption.map fun kept => Effect.write (.array kept)) =
            some x ∧ x.carryOut path doc = .ok doc' := by
  have hpull : ∀ {found items}, doc.arrayAt path op = .ok (found, items) →
      (doc.pull path op condition = ⟨doc', none⟩ ↔
        ∃ kept, itemsNotMeeting condition items = .ok kept ∧
          found.setPath path (.array kept) = .ok doc') := by
    intro found items harray
    unfold pull
    rw [harray]
    cases hkept : itemsNotMeeting condition items with
    | error cause => simp [hkept]
    | ok kept => simp [hkept, Applied.ofExcept_eq_iff]
  constructor
  · intro h
    cases harray : doc.arrayAt path op with
    | error cause => simp [pull, harray] at h
    | ok opened =>
      obtain ⟨found, items⟩ := opened
      obtain ⟨hitems, hset⟩ := arrayAt_eq_ok hpath harray
      obtain ⟨kept, hkept, hwrite⟩ := (hpull harray).mp h
      exact ⟨.write (.array kept), by simp [hitems, hkept, Except.toOption], (hset _).mp hwrite⟩
  · rintro ⟨x, hx, hwrite⟩
    obtain ⟨items, hitems, hx⟩ := Option.bind_eq_some_iff.mp hx
    obtain ⟨kept, hkept, rfl⟩ := Option.map_eq_some_iff.mp hx
    have hkept := toOption_eq_some.mp hkept
    obtain ⟨found, harray⟩ := arrayAt_of_setPath op hpath hitems hwrite
    obtain ⟨-, hset⟩ := arrayAt_eq_ok hpath harray
    exact (hpull harray).mpr ⟨kept, hkept, (hset _).mpr hwrite⟩

/-- Pushing writes the array once. -/
theorem push_eq_ok (hpath : Named (dottedSegments path)) {unique : Bool} {operand : Json} :
    doc.push path op unique operand = .ok doc' ↔
      ∃ x, pushEffect? unique operand (doc.getPath? path) = some x ∧
        x.carryOut path doc = .ok doc' := by
  unfold push
  simp only [bind_eq_ok, changeArray_eq_ok hpath, pushEffect?]
  cases pushedValues operand with
  | error cause => simp
  | ok pushed =>
    cases itemsOf? (doc.getPath? path) with
    | none => simp
    | some items => simp [Effect.carryOut]

/-- Changing a number writes the result. -/
theorem changeNumber_eq_ok {operand : Json} {onWords : Int → Int → Int}
    {onDoubles : Binary64 → Binary64 → Option Binary64} :
    doc.changeNumber path op onWords onDoubles operand = .ok doc' ↔
      ∃ x, ((combineNumbers op onWords onDoubles ((doc.getPath? path).getD (.ofInt64 0))
          operand).toOption.map Effect.write) = some x ∧ x.carryOut path doc = .ok doc' := by
  unfold changeNumber
  rw [bind_eq_ok]
  cases combineNumbers op onWords onDoubles ((doc.getPath? path).getD (.ofInt64 0)) operand with
  | error cause => simp [Except.toOption]
  | ok result => simp [Except.toOption, Effect.carryOut]

/-- A comparison writes the operand or keeps what there is. -/
theorem setIfOrdered_eq_carryOut (wanted : Ordering) (operand : Json) :
    doc.setIfOrdered path wanted operand =
      (orderedEffect wanted operand (doc.getPath? path)).carryOut path doc := by
  unfold setIfOrdered orderedEffect
  cases doc.getPath? path with
  | none => rfl
  | some v =>
    simp only
    split <;> rfl

/-- Removing equal items writes the array once. -/
theorem pullAll_eq_ok (hpath : Named (dottedSegments path)) {operand : Json} :
    doc.pullAll path op operand = .ok doc' ↔
      ∃ x, (operand.asArray?.bind fun removed => (itemsOf? (doc.getPath? path)).map fun items =>
          Effect.write (.array (items.filter fun item => !Json.isIn removed item))) = some x ∧
        x.carryOut path doc = .ok doc' := by
  unfold pullAll
  split
  · rename_i removed
    rw [changeArray_eq_ok hpath]
    cases itemsOf? (doc.getPath? path) with
    | none => simp
    | some items => simp [Json.asArray?, Effect.carryOut]
  · rename_i hnot
    have hnone : operand.asArray? = none := by
      cases operand with
      | array removed => exact absurd rfl (hnot removed)
      | null => rfl
      | bool b => rfl
      | whole n => rfl
      | float x => rfl
      | string t => rfl
      | object es => rfl
    simp [hnone, throw, throwThe, MonadExceptOf.throw]

/-- Removing is an effect only where there is something. -/
theorem removePath_eq_carryOut :
    (removalEffect (doc.getPath? path)).carryOut path doc = .ok (doc.removePath path) := by
  cases hfound : doc.getPath? path with
  | none => simp [removalEffect, Effect.carryOut, removePath_of_getPath?_none hfound]
  | some v => rfl

end Object

namespace UpdateEntry

variable {inserting : Bool} {doc doc' : Object}

/-- **An entry succeeds exactly when its effect on what stands at its path can be carried out.** -/
theorem act_eq_iff {e : UpdateEntry} (he : Named e.segments) (hrename : e.operator ≠ "$rename") :
    e.act inserting doc = ⟨doc', none⟩ ↔
      ∃ x, e.effect? inserting (e.current doc) = some x ∧ x.carryOut e.path doc = .ok doc' := by
  obtain ⟨op, path, operand⟩ := e
  simp only [act, effect?, current, segments] at he hrename ⊢
  unfold Object.applyOperator
  split
  · simp [Applied.ofExcept_eq_iff, Effect.carryOut]
  · cases inserting <;> simp [Applied.ofExcept_eq_iff, Effect.carryOut]
  · simp [Object.removePath_eq_carryOut]
  · exact Applied.ofExcept_eq_iff.trans Object.changeNumber_eq_ok
  · exact Applied.ofExcept_eq_iff.trans Object.changeNumber_eq_ok
  · simp [Applied.ofExcept_eq_iff, Object.setIfOrdered_eq_carryOut]
  · simp [Applied.ofExcept_eq_iff, Object.setIfOrdered_eq_carryOut]
  · exact Applied.ofExcept_eq_iff.trans (Object.push_eq_ok he)
  · exact Applied.ofExcept_eq_iff.trans (Object.push_eq_ok he)
  · exact Object.pull_eq_iff he
  · exact Applied.ofExcept_eq_iff.trans (Object.pullAll_eq_ok he)
  · rw [Applied.ofExcept_eq_iff, Object.changeArray_eq_ok he]
    simp [Effect.carryOut]
  · exact absurd rfl hrename
  · simp_all

end UpdateEntry

end DocumentMapper
