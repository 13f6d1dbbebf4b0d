import DocumentMapper.Proofs.ContainerRules
import DocumentMapper.Proofs.InstantTexts
import DocumentMapper.Proofs.SortedEntries
import DocumentMapper.Storage.Decoding

/-!
# Reading back what was stored without a schema

A field that holds anything stores a value by its structure alone, and reads it back the same way. A
value comes back if its structure says everything: it is made of null, booleans, numbers, texts,
lists and dicts. An instant would come back as its text, and a dict that looks like a reference as
one.

The other scalars store one kind of value each and read back that kind. The geometries store a list
with the name of its type around it.

## Main results

* `Value.IsTree.decode_plain`: a tree is read back from its stored form;
* `Scalar.Holds.decode_eq`: a value of a scalar field is read back from its stored form.
-/

namespace DocumentMapper

open Drawing Number

/-- A field without a rule takes a value as it is. -/
theorem Field.yields_check_bind {f : Field} {α : Type} {v : Value} {x : Unit → Drawing α} {a : α}
    (hrule : f.validator = none) (hx : (x ()).Yields a) : (f.check v >>= x).Yields a := by
  rw [Field.check_eq_pure (by rw [hrule]; rfl)]
  exact .bind (.pure ()) hx

/-! ### Trees -/

namespace Value

/-- The entries of the stored form of a reference: a collection and an id. -/
def IsPair (entries : List (String × Value)) : Prop :=
  (∃ collection, Entries.get? entries "$ref" = some (.string collection)) ∧
    (Entries.get? entries "$id").isSome

/-- A tree of null, booleans, numbers, texts, lists and dicts. No dict in it is the pair that a
reference is stored as. An envelope with a class has such a pair in it, so none is an envelope
either. -/
inductive IsTree : Value → Prop
  | null : IsTree .null
  | bool (b : Bool) : IsTree (.bool b)
  | int (n : Int64) : IsTree (.int n)
  | float (x : Binary64) : IsTree (.float (.finite x))
  | string (s : String) : IsTree (.string s)
  | list {items : List Value} (h : ∀ v ∈ items, v.IsTree) : IsTree (.list items)
  | dict {entries : List (String × Value)} (hsorted : Entries.Sorted entries)
      (hpair : ¬ IsPair entries) (h : ∀ e ∈ entries, e.2.IsTree) : IsTree (.dict entries)

/-- A finite number. -/
inductive IsNumber : Value → Prop
  | int (n : Int64) : IsNumber (.int n)
  | float (x : Binary64) : IsNumber (.float (.finite x))

/-- A number, or a list of coordinates: a position, a list of positions, and so on. -/
inductive IsCoordinates : Value → Prop
  | number {v : Value} (h : v.IsNumber) : IsCoordinates v
  | list {items : List Value} (h : ∀ v ∈ items, v.IsCoordinates) : IsCoordinates (.list items)

theorem IsNumber.isTree {v : Value} (h : v.IsNumber) : v.IsTree := by
  cases h with
  | int n => exact .int n
  | float x => exact .float x

theorem IsNumber.asDouble? {v : Value} (h : v.IsNumber) : v.asDouble?.isSome = true := by
  cases h <;> rfl

theorem IsCoordinates.isTree {v : Value} (h : v.IsCoordinates) : v.IsTree := by
  induction h with
  | number h => exact h.isTree
  | list _ ih => exact .list ih

end Value

/-- Values that are equal to themselves one by one. -/
theorem Value.equalItems_self {items : List Value} (h : ∀ v ∈ items, v.equal v = true) :
    Value.equalItems items items = true := by
  induction items with
  | nil => rfl
  | cons v vs ih =>
    obtain ⟨hv, hvs⟩ := List.forall_mem_cons.mp h
    simp only [Value.equalItems, hv, ih hvs, Bool.and_self]

theorem Value.equalEntries_self {entries : List (String × Value)}
    (h : ∀ e ∈ entries, e.2.equal e.2 = true) : Value.equalEntries entries entries = true := by
  induction entries with
  | nil => rfl
  | cons e rest ih =>
    obtain ⟨k, v⟩ := e
    obtain ⟨hv, hrest⟩ := List.forall_mem_cons.mp h
    simp only [Value.equalEntries, hv, ih hrest, beq_self_eq_true, Bool.and_self]

/-- A tree equals itself: it has no undefined number in it. -/
theorem Value.IsTree.equal_self {v : Value} (h : v.IsTree) : v.equal v = true := by
  induction h with
  | null => rfl
  | bool b => simp [Value.equal]
  | int n => simp [Value.equal]
  | float x => exact Double.equal_finite.mpr rfl
  | string s => simp [Value.equal]
  | list _ ih => exact Value.equalItems_self ih
  | dict _ _ _ ih => exact Value.equalEntries_self ih

/-! ### Reading trees -/

theorem get?_ofEntries (o : Object) (key : String) :
    Entries.get? (Value.ofEntries o) key = (o.get? key).map Value.ofJson := by
  induction o with
  | nil => rfl
  | cons e rest ih =>
    obtain ⟨k, j⟩ := e
    by_cases hk : k = key
    · simp [Value.ofEntries, Entries.get?, hk]
    · simpa [Value.ofEntries, Entries.get?, hk] using ih

/-- What a stored value in a tree is like: it is read back, and it is no reference. -/
def ReadsBack (v : Value) (j : Json) : Prop :=
  Value.ofJson j = v ∧ j.reference? = none

theorem yields_plainItems {items : List Value}
    (h : ∀ v ∈ items, ∃ j, v.plain.Yields j ∧ ReadsBack v j) :
    ∃ js, (plainItems items).Yields js ∧ Value.ofItems js = items := by
  induction items with
  | nil => exact ⟨[], .pure _, rfl⟩
  | cons v vs ih =>
    obtain ⟨⟨j, hj, hread, -⟩, hvs⟩ := List.forall_mem_cons.mp h
    obtain ⟨js, hjs, hreads⟩ := ih hvs
    refine ⟨j :: js, .bind hj (.bind hjs (.pure _)), ?_⟩
    rw [Value.ofItems, hread, hreads]

theorem yields_plainEntries {entries : List (String × Value)}
    (h : ∀ e ∈ entries, ∃ j, e.2.plain.Yields j ∧ ReadsBack e.2 j) :
    ∃ o, (plainEntries entries).Yields o ∧ Value.ofEntries o = entries ∧
      innerReference? o = none := by
  induction entries with
  | nil => exact ⟨[], .pure _, rfl, rfl⟩
  | cons e rest ih =>
    obtain ⟨k, v⟩ := e
    obtain ⟨⟨j, hj, hread, hreference⟩, hrest⟩ := List.forall_mem_cons.mp h
    obtain ⟨o, ho, hreads, hinner⟩ := ih hrest
    refine ⟨(k, j) :: o, .bind hj (.bind ho (.pure _)), ?_, ?_⟩
    · rw [Value.ofEntries, hread, hreads]
    · rw [innerReference?]
      split
      · exact hreference
      · exact hinner

/-- Entries that are not read as a pair are no reference, if none is inside. -/
theorem reference?_eq_none {o : Object} (hpair : ¬ Value.IsPair (Value.ofEntries o))
    (hinner : innerReference? o = none) : (Json.object o).reference? = none := by
  rw [Json.reference?]
  split
  · rename_i collection id hcollection hid
    refine absurd ⟨⟨collection, ?_⟩, ?_⟩ hpair
    · rw [get?_ofEntries, hcollection]
      rfl
    · rw [get?_ofEntries, hid]
      rfl
  · rw [hinner]
    rfl

/-- **A tree is read back from its stored form**, which is no reference. -/
theorem Value.IsTree.decode_plain {v : Value} (h : v.IsTree) :
    ∃ j, v.plain.Yields j ∧ ReadsBack v j := by
  induction h with
  | null => exact ⟨.null, .pure _, rfl, rfl⟩
  | bool b => exact ⟨.bool b, .pure _, rfl, rfl⟩
  | int n => exact ⟨.ofInt64 n, .pure _, by simp [Json.ofInt64, Value.ofJson], rfl⟩
  | float x => exact ⟨.float x, .pure _, rfl, rfl⟩
  | string s => exact ⟨.string s, .pure _, rfl, rfl⟩
  | list _ ih =>
    obtain ⟨js, hjs, hreads⟩ := yields_plainItems ih
    refine ⟨.array js, .bind hjs (.pure _), ?_, rfl⟩
    rw [Value.ofJson, hreads]
  | dict hsorted hpair _ ih =>
    obtain ⟨o, ho, hreads, hinner⟩ := yields_plainEntries ih
    have hreference : (Json.object o).reference? = none :=
      reference?_eq_none (by rwa [hreads]) hinner
    refine ⟨.object o, .bind ho (.pure _), ?_, hreference⟩
    rw [Value.ofJson, hreference, hreads]
    exact congrArg Value.dict (Entries.ofPairs_of_sorted hsorted)

/-! ### Scalars -/

/-- The values that a scalar field is for. -/
inductive Scalar.Holds : Scalar → Value → Prop
  | any {v : Value} (h : v.IsTree) : Holds .any v
  | string (s : String) : Holds .string (.string s)
  | int (n : Int64) : Holds .int (.int n)
  | float (x : Binary64) : Holds .float (.float (.finite x))
  | bool (b : Bool) : Holds .bool (.bool b)
  | datetime {i : Time.Instant} (h : i.HasText) : Holds .datetime (.datetime i)
  | stringId (s : String) : Holds .objectId (.string s)
  | intId (n : Int64) : Holds .objectId (.int n)
  | geoPoint {x y : Value} (hx : x.IsNumber) (hy : y.IsNumber) : Holds .geoPoint (.list [x, y])
  | geometry {s : Scalar} {items : List Value} (hs : s.geoJsonType?.isSome)
      (h : ∀ v ∈ items, v.IsCoordinates) : Holds s (.list items)

/-- A field that holds anything stores a value as it is on its own. -/
theorem Value.yields_encode_any {f : Field} {v : Value} {j : Json} (hkind : f.kind = .scalar .any)
    (hrule : f.validator = none) (h : v.plain.Yields j) : (v.encode f).Yields j := by
  cases v with
  | null => exact h
  | list | dict | document | linked =>
    refine Field.yields_check_bind hrule ?_
    rw [hkind]
    exact h
  | bool | int | float | string | datetime | reference =>
    refine Field.yields_check_bind hrule ?_
    rw [hkind]
    exact h

theorem decode_any (c : Catalog) {f : Field} (hkind : f.kind = .scalar .any) (j : Json) :
    f.decode c j = .ofJson j := by
  cases j <;> simp [Field.decode, Json.decode, hkind, Scalar.decodeLeaf, Scalar.decodeObject,
    Scalar.geoJsonType?, Value.ofJson]

/-- A geometry is stored with the name of its type around it. -/
theorem Value.yields_encode_geometry {f : Field} {s : Scalar} {type : String} {items : List Value}
    {js : List Json} (hkind : f.kind = .scalar s) (hrule : f.validator = none)
    (hs : s.geoJsonType? = some type) (h : (plainItems items).Yields js) :
    ((Value.list items).encode f).Yields (geometry type (.array js)) := by
  have hany : s ≠ .any := by
    rintro rfl
    cases hs
  have hpoint : s ≠ .geoPoint := by
    rintro rfl
    cases hs
  refine Field.yields_check_bind hrule ?_
  simp only [hkind, hany, hpoint, hs, ↓reduceIte]
  exact .bind h (.pure _)

namespace Scalar.Holds

variable {s : Scalar} {v : Value}

/-- **A value of a scalar field is read back from its stored form.** -/
theorem decode_eq (c : Catalog) {f : Field} (hkind : f.kind = .scalar s)
    (hrule : f.validator = none) (h : s.Holds v) :
    ∃ j, (v.encode f).Yields j ∧ f.decode c j = v := by
  have hleaf : ∀ {w : Value} {j : Json}, (f.encodeScalar s w).Yields j →
      (f.encodeLeaf w).Yields j := by
    intro w j hj
    refine Field.yields_check_bind hrule ?_
    rw [hkind]
    exact hj
  cases h with
  | any h =>
    obtain ⟨j, hj, hread, -⟩ := h.decode_plain
    exact ⟨j, Value.yields_encode_any hkind hrule hj, (decode_any c hkind j).trans hread⟩
  | string t | stringId t =>
    refine ⟨.string t, hleaf (.pure _), ?_⟩
    simp [Field.decode, Json.decode, hkind, decodeLeaf, Value.ofJson]
  | int n | intId n =>
    refine ⟨.ofInt64 n, hleaf (.pure _), ?_⟩
    simp [Field.decode, Json.ofInt64, Json.decode, hkind, decodeLeaf, Value.ofJson]
  | float x =>
    refine ⟨.float x, hleaf (.pure _), ?_⟩
    simp [Field.decode, Json.decode, hkind, decodeLeaf, Value.ofJson]
  | bool b =>
    refine ⟨.bool b, hleaf (.pure _), ?_⟩
    simp [Field.decode, Json.decode, hkind, decodeLeaf, Value.ofJson]
  | datetime h =>
    refine ⟨.string _, hleaf (.pure _), ?_⟩
    simp [Field.decode, Json.decode, hkind, decodeLeaf, Time.Instant.read?_text h]
  | @geoPoint x y hx hy =>
    have hitems : ∀ v ∈ [x, y], ∃ j, v.plain.Yields j ∧ ReadsBack v j := by
      simp [hx.isTree.decode_plain, hy.isTree.decode_plain]
    obtain ⟨js, hjs, hreads⟩ := yields_plainItems hitems
    refine ⟨.array js, ?_, by simp [Field.decode, Json.decode, hkind, Value.ofJson, hreads]⟩
    refine Field.yields_check_bind hrule ?_
    simp only [hkind, reduceCtorEq, ↓reduceIte, List.length_cons, List.length_nil, Nat.reduceAdd,
      List.all_cons, List.all_nil, hx.asDouble?, hy.asDouble?, Bool.and_self, and_self]
    exact .bind hjs (.pure _)
  | geometry hs h =>
    obtain ⟨type, hs⟩ := Option.isSome_iff_exists.mp hs
    obtain ⟨js, hjs, hreads⟩ := yields_plainItems fun v hv => (h v hv).isTree.decode_plain
    refine ⟨_, Value.yields_encode_geometry hkind hrule hs hjs, ?_⟩
    simp [Field.decode, DocumentMapper.geometry, Json.decode, hkind, decodeObject, hs, Entries.get?,
      Value.ofJson, hreads]

theorem equal_self (h : s.Holds v) : v.equal v = true := by
  cases h with
  | any h => exact h.equal_self
  | datetime => exact decide_eq_true rfl
  | @geoPoint x y hx hy =>
    have hitems : ∀ v ∈ [x, y], v.IsTree := by simp [hx.isTree, hy.isTree]
    exact (Value.IsTree.list hitems).equal_self
  | geometry _ h => exact (Value.IsTree.list fun v hv => (h v hv).isTree).equal_self
  | string t | stringId t => exact (Value.IsTree.string t).equal_self
  | int n | intId n => exact (Value.IsTree.int n).equal_self
  | float x => exact (Value.IsTree.float x).equal_self
  | bool b => exact (Value.IsTree.bool b).equal_self

end Scalar.Holds

end DocumentMapper
