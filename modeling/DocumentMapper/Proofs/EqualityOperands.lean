import DocumentMapper.Proofs.BuiltTypes
import DocumentMapper.Proofs.KeywordConditions
import DocumentMapper.Proofs.Loading
import DocumentMapper.Proofs.SameValues

/-!
# What a condition of equality asks for

A condition that names a scalar field and no operator becomes a filter with one entry, under the
storage name of the field: what the field compares with for the value. Most values are compared with
their stored form, a text in a field of numbers with the number that it spells, and lists and dicts
with their stored form whatever the kind of the field.

As long as what is compared with is no object of operators, the records that are found have it at the
name, or have an array with it there.

## Main results

* `compile_name_eq_ok`: the filter of a condition of equality on a scalar field;
* `Field.Compares.asksFor`: what the filter asks of records;
* `Selection.all_withKey`: what a selection by key loads;
* `equality_finds`: both for every type and every field.
-/

namespace DocumentMapper

open Text

variable {c : Catalog} {t : DocumentType} {f : Field} {s : Scalar} {key : String} {v : Value}
  {σ σ' : Supply} {j : Json}

/-! ### What a scalar field compares with -/

/-- What a scalar field compares with for a value that is given for equality. -/
inductive Field.Compares (f : Field) (s : Scalar) (σ σ' : Supply) : Value → Json → Prop where
  /-- The stored form of the value. -/
  | stored {v : Value} {j : Json} (hv : v.isContainer = false)
      (h : (v.encode f).runFrom σ = (.ok j, σ')) : f.Compares s σ σ' v j
  /-- The stored form that a list or a dict has by itself. -/
  | container {v : Value} {j : Json} (hv : v.isContainer = true)
      (h : v.plain.runFrom σ = (.ok j, σ')) : f.Compares s σ σ' v j
  /-- The integer that a text spells. -/
  | integer {text : String} {n : Int64} (hs : s = .int)
      (h : signedWord? (trimBlanks text.toList) = some n) (hσ : σ' = σ) :
      f.Compares s σ σ' (.string text) (.ofInt64 n)
  /-- The number that a text spells. -/
  | number {text : String} {x : Number.Binary64} (hs : s = .float)
      (h : double? (trimBlanks text.toList) = some (.finite x)) (hσ : σ' = σ) :
      f.Compares s σ σ' (.string text) (.float x)

/-- Only finite numbers are stored. -/
theorem Number.Double.toJson_eq_ok {x : Number.Double} :
    x.toJson.runFrom σ = (.ok j, σ') ↔ ∃ y, x = .finite y ∧ j = .float y ∧ σ' = σ := by
  cases x with
  | finite y => simp [toJson, eq_comm]
  | _ => simp [toJson]

theorem Field.operand_scalar (hs : f.kind = .scalar s) (v : Value) :
    f.operand none v = if v.isNull then return .null else f.scalarOperand s v := by
  obtain ⟨name, storageName, isRequired, kind, dflt, validator⟩ := f
  obtain rfl : kind = .scalar s := hs
  simp only [Field.operand, Kind.operand]

/-- The operand of equality is what the field compares with. -/
theorem Field.compares_of_operand (hs : f.kind = .scalar s)
    (h : (f.operand none v).runFrom σ = (.ok j, σ')) : f.Compares s σ σ' v j := by
  rw [operand_scalar hs] at h
  split at h
  · rename_i hnull
    cases v with
    | null => exact .stored rfl h
    | _ => cases hnull
  · unfold scalarOperand at h
    split at h
    · exact .container rfl h
    · exact .container rfl h
    · rename_i text _
      split at h
      · rename_i hint
        split at h
        · rename_i n hn
          simp only [Drawing.runFrom_pure, Prod.mk.injEq, Except.ok.injEq] at h
          obtain ⟨rfl, rfl⟩ := h
          exact .integer hint hn rfl
        · simp [refuse] at h
      · split at h
        · rename_i hfloat
          split at h
          · rename_i x hx
            obtain ⟨y, rfl, rfl, hσ⟩ := Number.Double.toJson_eq_ok.mp h
            exact .number hfloat hx hσ
          · simp [refuse] at h
        · exact .stored rfl h
    · rename_i hlist hdict _
      have hv : v.isContainer = false := by
        cases v with
        | list items => exact absurd rfl (hlist items)
        | dict entries => exact absurd rfl (hdict entries)
        | _ => rfl
      exact .stored hv h

/-- **A condition of equality on a scalar field is a filter with one entry**, under the storage name
of the field. -/
theorem compile_name_eq_ok (hkey : IsName key) (hf : t.field? (t.attributeOf key) = some f)
    (hs : f.kind = .scalar s) {filter : Object} :
    (compile c t [(key, v)]).runFrom σ = (.ok filter, σ') ↔
      ∃ j, (f.operand none v).runFrom σ = (.ok j, σ') ∧ filter = [(f.storageName, j)] := by
  rw [compile_field_eq_ok hkey.ne_rawKey hkey.read hf]
  simp only [Field.comparedPath, hs]
  rfl

/-! ### Data -/

/-- A key that is data is looked for in the id of a record. -/
theorem meets_idKey_iff (hdata : ¬ j.IsOperators) {record : Object} :
    record.meets [(idKey, j)] = .ok true ↔ Finds j (record.get? idKey).toList := by
  have hlookup : record.lookup idKey = (record.get? idKey).toList :=
    Object.lookup_of_segment rfl record
  rw [meets_single_iff (by decide), conditionHolds_of_data hdata, Except.ok.injEq, equalsAny_iff,
    hlookup]
  exact and_iff_right rfl

/-- Entries keep their keys in their stored form. -/
theorem keys_of_plainEntries {entries : List (String × Value)} {o : Object}
    (h : (plainEntries entries).runFrom σ = (.ok o, σ')) :
    o.map Prod.fst = entries.map Prod.fst := by
  induction entries generalizing σ o with
  | nil =>
    obtain rfl : o = [] := by simpa [plainEntries, eq_comm] using congrArg Prod.fst h
    rfl
  | cons e rest ih =>
    obtain ⟨k, v⟩ := e
    simp only [plainEntries, Drawing.runFrom_bind_eq_ok] at h
    obtain ⟨j, u, -, more, u', hrest, hpure⟩ := h
    simp only [Drawing.runFrom_pure, Prod.mk.injEq, Except.ok.injEq] at hpure
    obtain ⟨rfl, rfl⟩ := hpure
    simp [ih hrest]

theorem isOperatorMap_iff_keys {entries : Object} :
    isOperatorMap entries = true ↔
      entries.map Prod.fst ≠ [] ∧ ∀ k ∈ entries.map Prod.fst, beginsWith "$" k = true := by
  simp [isOperatorMap]

/-- Whether a stored value is a truth value, a number or a text. -/
def Json.IsAtom : Json → Prop
  | .bool _ | .whole _ | .float _ | .string _ => True
  | _ => False

/-- What a scalar field stores for a value that is no container is a truth value, a number or a text,
unless the field holds anything or there is no value. -/
theorem Field.isAtom_of_encode (hs : f.kind = .scalar s) (hv : v.isContainer = false)
    (h : (v.encode f).runFrom σ = (.ok j, σ')) : j.IsAtom ∨ s = .any ∨ v = .null := by
  have hscalar : ∀ {u : Supply} {w : Value}, (f.encodeScalar s w).runFrom u = (.ok j, σ') →
      j.IsAtom ∨ s = .any := by
    intro u w hw
    unfold encodeScalar at hw
    split at hw
    · exact .inr rfl
    all_goals refine .inl ?_
    all_goals first
      | (obtain ⟨y, -, rfl, -⟩ := Number.Double.toJson_eq_ok.mp hw; trivial)
      | (split at hw <;> simp [mismatch, refuse] at hw <;> obtain ⟨rfl, -⟩ := hw <;> trivial)
      | (simp [mismatch, refuse] at hw <;> obtain ⟨rfl, -⟩ := hw <;> trivial)
  have hleaf : ∀ {w : Value}, (f.encodeLeaf w).runFrom σ = (.ok j, σ') →
      j.IsAtom ∨ s = .any ∨ v = .null := by
    intro w hw
    simp only [encodeLeaf, hs, Drawing.runFrom_bind_eq_ok] at hw
    obtain ⟨-, u, -, hw⟩ := hw
    exact (hscalar hw).imp_right .inl
  cases v with
  | list items => cases hv
  | dict entries => cases hv
  | null => exact .inr (.inr rfl)
  | document doc =>
    simp only [Value.encode, hs, Drawing.runFrom_bind_eq_ok] at h
    obtain ⟨-, u, -, h⟩ := h
    split at h
    · exact .inr (.inl ‹_›)
    · simp [mismatch, refuse] at h
  | linked doc =>
    simp only [Value.encode, hs, Drawing.runFrom_bind_eq_ok] at h
    obtain ⟨-, u, -, h⟩ := h
    split at h
    · exact .inr (.inl ‹_›)
    · simp [mismatch, refuse] at h
  | _ => exact hleaf h

/-- What a scalar field compares with is an atom, unless the field holds anything, there is no value or
the value is a container. -/
theorem Field.Compares.isAtom (hs : f.kind = .scalar s) (h : f.Compares s σ σ' v j) :
    j.IsAtom ∨ s = .any ∨ v = .null ∨ v.isContainer = true := by
  cases h with
  | stored hv h => exact (isAtom_of_encode hs hv h).imp_right (·.imp_right .inl)
  | container hv h => exact .inr (.inr (.inr hv))
  | integer hint h hσ => exact .inl trivial
  | number hfloat h hσ => exact .inl trivial

/-- The stored form of a list is an array, and that of a dict an object with its keys. -/
theorem Field.Compares.of_container (h : f.Compares s σ σ' v j) (hv : v.isContainer = true) :
    (∃ items stored, v = .list items ∧ j = .array stored) ∨
      ∃ entries stored, v = .dict entries ∧ j = .object stored ∧
        stored.map Prod.fst = entries.map Prod.fst := by
  cases h with
  | stored hno h => rw [hv] at hno; cases hno
  | integer hint h hσ => cases hv
  | number hfloat h hσ => cases hv
  | container _ h =>
    cases v with
    | list items =>
      simp only [Value.plain, Drawing.runFrom_bind_eq_ok, Drawing.runFrom_pure, Prod.mk.injEq,
        Except.ok.injEq] at h
      obtain ⟨stored, u, -, rfl, -⟩ := h
      exact .inl ⟨items, stored, rfl, rfl⟩
    | dict entries =>
      simp only [Value.plain, Drawing.runFrom_bind_eq_ok, Drawing.runFrom_pure, Prod.mk.injEq,
        Except.ok.injEq] at h
      obtain ⟨stored, u, hstored, rfl, -⟩ := h
      exact .inr ⟨entries, stored, rfl, rfl, keys_of_plainEntries hstored⟩
    | _ => cases hv

/-- What is asked of records by the filter that a scalar field makes of a value. -/
structure Field.AsksFor (f : Field) (s : Scalar) (v : Value) (j : Json) : Prop where
  /-- Data is found where it stands. -/
  data : ¬ j.IsOperators → ∀ r : Object, r.meets [(f.storageName, j)] = .ok true ↔
    beginsWith "$" f.storageName = false ∧ Finds j (r.lookup f.storageName)
  /-- A dict is data unless all its keys begin with a dollar sign, and whatever else can be no data is
  what a field that holds anything stores as an object. -/
  isOperators : j.IsOperators → s = .any ∨
    ∃ entries, v = .dict entries ∧ ∀ e ∈ entries, beginsWith "$" e.1 = true
  /-- Only null asks for null, unless the field holds anything. -/
  null : j = .null → s = .any ∨ v = .null

/-- **What a scalar field compares with for a value says what its filter asks for.** -/
theorem Field.Compares.asksFor (hs : f.kind = .scalar s) (hname : f.storageName ∉ connectives)
    (h : f.Compares s σ σ' v j) : f.AsksFor s v j where
  data hdata r := by
    rw [meets_single_iff hname, conditionHolds_of_data hdata, Except.ok.injEq, equalsAny_iff]
  isOperators hoperators := by
    obtain ⟨stored, rfl, hmap⟩ := hoperators
    rcases h.isAtom hs with hatom | hany | rfl | hv
    · exact hatom.elim
    · exact .inl hany
    · cases h with
      | stored hv h => simp [Value.encode] at h
      | container hv h => cases hv
    · rcases h.of_container hv with ⟨items, stored', -, harray⟩ | ⟨entries, stored', hdict, hj, hkeys⟩
      · cases harray
      · obtain rfl := Json.object.inj hj
        refine .inr ⟨entries, hdict, fun e he => ?_⟩
        refine (isOperatorMap_iff_keys.mp hmap).2 e.1 ?_
        rw [hkeys]
        exact List.mem_map_of_mem he
  null hnull := by
    subst hnull
    rcases h.isAtom hs with hatom | hany | hv | hv
    · exact hatom.elim
    · exact .inl hany
    · exact .inr hv
    · rcases h.of_container hv with ⟨items, stored, -, harray⟩ | ⟨entries, stored, -, hobject, -⟩
      · cases harray
      · cases hobject

/-! ### Selections by key -/

theorem IsName.pk : IsName "pk" :=
  ⟨by decide, by decide⟩

/-- The primary key of a built type is stored as `_id`. -/
theorem DocumentType.Built.storageName_of_key (ht : t.Built) (hf : t.primaryKeyField? = some f) :
    t.field? (t.attributeOf "pk") = some f ∧ f.storageName = idKey := by
  cases hkey : t.primaryKey with
  | none => simp [DocumentType.primaryKeyField?, hkey] at hf
  | some key =>
    have hattribute : t.attributeOf "pk" = key := by simp [DocumentType.attributeOf, hkey]
    have hfield : t.field? key = some f := by
      simpa [DocumentType.primaryKeyField?, hkey] using hf
    refine ⟨by rw [hattribute, hfield], ?_⟩
    obtain ⟨decl, hd⟩ := id ht
    rcases (Declaration.build_eq_ok hd).2 with ⟨-, hnone⟩ | ⟨collection, -, -, hc, -⟩
    · rw [hkey] at hnone
      cases hnone
    · obtain ⟨-, g, -, hg, -, hid⟩ := ht.primaryKeyField? hc
      obtain rfl := Option.some.inj (hf.symm.trans hg)
      exact hid

namespace Selection

/-- The query of a selection by key has the key as one of its entries. -/
theorem toQuery_withKey {m : Mapper} {q q' : Selection} {query : Object} (hbuilt : q.type.Built)
    (hf : q.type.primaryKeyField? = some f) (hs : f.kind = .scalar s)
    (hwith : q.withKey v = .ok q') (hquery : (q'.toQuery m).runFrom σ = (.ok query, σ')) :
    q'.type = q.type ∧ ∃ j, f.Compares s σ σ' v j ∧ (idKey, j) ∈ query := by
  have hq' : q' = { q with filter := .leaf [("pk", v)] } := by
    unfold withKey at hwith
    split at hwith
    · exact (Except.ok.inj hwith).symm
    · cases hwith
  subst hq'
  obtain ⟨hfield, hstored⟩ := hbuilt.storageName_of_key hf
  simp only [toQuery, Filter.toQuery, Filter.simplify, Filter.compileNode,
    Drawing.runFrom_bind_eq_ok, compile_name_eq_ok .pk hfield hs, hstored] at hquery
  obtain ⟨_, u, ⟨j, hoperand, rfl⟩, hrest⟩ := hquery
  refine ⟨rfl, j, ?_⟩
  split at hrest
  · simp only [Drawing.runFrom_pure, Prod.mk.injEq, Except.ok.injEq] at hrest
    obtain ⟨rfl, rfl⟩ := hrest
    exact ⟨Field.compares_of_operand hs hoperand, List.mem_cons_self⟩
  · simp only [Drawing.runFrom_pure, Prod.mk.injEq, Except.ok.injEq] at hrest
    obtain ⟨rfl, rfl⟩ := hrest
    exact ⟨Field.compares_of_operand hs hoperand, List.mem_cons_self⟩

/-- **A selection by key loads what has the key**, as long as the key is data. -/
theorem all_withKey {m : Mapper} {q q' : Selection} {S S' : Session} {loaded : List Document}
    (hbuilt : q.type.Built) (hf : q.type.primaryKeyField? = some f) (hs : f.kind = .scalar s)
    (hwith : q.withKey v = .ok q') (hall : (q'.all m).runFrom S = (.ok loaded, S')) :
    ∃ j, f.Compares s S.supply S'.supply v j ∧ (¬ j.IsOperators → ∀ d ∈ loaded,
      ∃ raw : Object, d.raw = some raw ∧ Finds j (raw.get? idKey).toList) := by
  obtain ⟨query, hquery, -, hloaded⟩ := all_run hall
  obtain ⟨-, j, hcompares, hmem⟩ := toQuery_withKey hbuilt hf hs hwith hquery
  refine ⟨j, hcompares, fun hdata d hd => ?_⟩
  obtain ⟨record, -, hmeets, raw, hraw, hid⟩ := hloaded d hd
  refine ⟨raw, hraw, ?_⟩
  have hentry : record.meets [(idKey, j)] = .ok true := by
    rw [Object.meets_eq, entriesHold_eq_true_iff] at hmeets ⊢
    intro e he
    obtain rfl := List.mem_singleton.mp he
    exact hmeets _ hmem
  rw [hid]
  exact (meets_idKey_iff hdata).mp hentry

end Selection

/-! ### Conditions of equality -/

/-- **A condition of equality on a scalar field finds the value where it stands**, as long as what the
field compares with is data, and a selection by key loads what has the key. -/
theorem equality_finds (m : Mapper) :
    (∀ t key f s v σ σ' filter, IsName key → t.field? (t.attributeOf key) = some f →
        f.kind = .scalar s → f.storageName ∉ connectives →
        (compile m.catalog t [(key, v)]).runFrom σ = (.ok filter, σ') →
      ∃ j, filter = [(f.storageName, j)] ∧ f.Compares s σ σ' v j ∧ f.AsksFor s v j ∧
        (IsSegment f.storageName →
          ∀ r : Object, r.lookup f.storageName = (r.get? f.storageName).toList)) ∧
    ∀ (q q' : Selection) f s v S S' loaded, q.type.Built → q.type.primaryKeyField? = some f →
        f.kind = .scalar s → q.withKey v = .ok q' → (q'.all m).runFrom S = (.ok loaded, S') →
      ∃ j, f.Compares s S.supply S'.supply v j ∧ f.AsksFor s v j ∧
        (¬ j.IsOperators → ∀ d ∈ loaded, ∃ raw : Object, d.raw = some raw ∧
          Finds j (raw.get? idKey).toList) := by
  constructor
  · intro t key f s v σ σ' filter hkey hf hs hname hrun
    obtain ⟨j, hoperand, rfl⟩ := (compile_name_eq_ok hkey hf hs).mp hrun
    have hcompares := Field.compares_of_operand hs hoperand
    refine ⟨j, rfl, hcompares, hcompares.asksFor hs hname, fun hsegment r => ?_⟩
    exact Object.lookup_of_segment (dottedSegments_of_isSegment hsegment) r
  · intro q q' f s v S S' loaded hbuilt hf hs hwith hall
    have hname : f.storageName ∉ connectives := by
      rw [(hbuilt.storageName_of_key hf).2]
      decide
    obtain ⟨j, hcompares, hloaded⟩ := Selection.all_withKey hbuilt hf hs hwith hall
    exact ⟨j, hcompares, hcompares.asksFor hs hname, hloaded⟩

/-! ### Guests by their age -/

/-- Guests have an age. -/
def guestType : DocumentType where
  name := "Guest"
  className := "Guest"
  collection := some "guests"
  fields := [{ Field.ofKind "id" (.scalar .objectId) with storageName := idKey },
    .ofKind "age" (.scalar .int)]
  primaryKey := some "id"
  isDynamic := false
  allowsInheritance := false
  superclass := none

theorem guestType_built : guestType.Built := by
  let plain : Declaration := (Declaration.document "Guest").inCollection "guests"
  exact ⟨plain.withField (.ofKind "age" (.scalar .int)), rfl⟩

/-- A stored guest. -/
def guestRecord : Object :=
  [(idKey, .string "g1"), ("age", .ofInt64 5)]

/-- The field of the age. -/
def ageField : Field :=
  .ofKind "age" (.scalar .int)

theorem isName_age : IsName "age" :=
  ⟨by decide, by decide⟩

theorem compile_age {v : Value} {j : Json} {σ σ' : Supply}
    (h : (ageField.operand none v).runFrom σ = (.ok j, σ')) :
    (compile .empty guestType [("age", v)]).runFrom σ = (.ok [("age", j)], σ') :=
  (compile_name_eq_ok isName_age rfl rfl).mpr ⟨j, h, rfl⟩

/-- A mapper that knows no types by name. -/
def guestMapper : Mapper := ⟨.empty, .standard⟩

/-- The selection of all guests. -/
def guests : Selection := ⟨guestType, .empty, [], [], 0, none, none⟩

/-- A session with one stored guest. -/
def guestSession (record : Object) : Session :=
  ⟨Store.empty.setDocuments "guests" [record], .fresh⟩

theorem equality_finds_guest :
    (∃ filter j, (compile .empty guestType [("age", .int 5)]).runFrom .fresh = (.ok filter, .fresh) ∧
      filter = [("age", j)] ∧ ¬ j.IsOperators ∧
      (guestRecord.meets filter = .ok true ↔ Finds j (guestRecord.lookup "age"))) ∧
    guestType.Built ∧ ∃ q loaded, guests.withKey (.string "g1") = .ok q ∧
      (q.all guestMapper).runFrom (guestSession guestRecord) = (.ok loaded, guestSession guestRecord) ∧
      loaded.length = 1 ∧ ∀ d ∈ loaded, ∃ raw : Object, d.raw = some raw ∧
        Finds (.string "g1") (raw.get? idKey).toList := by
  obtain ⟨hcompile, hall⟩ := equality_finds guestMapper
  have hname : ageField.storageName ∉ connectives := by decide
  refine ⟨?_, guestType_built, ?_⟩
  · obtain ⟨j, hfilter, -, hasks, -⟩ := hcompile guestType "age" ageField .int (.int 5) .fresh .fresh _
      isName_age rfl rfl hname (compile_age rfl)
    obtain rfl : Json.ofInt64 5 = j := (Prod.mk.inj (List.singleton_inj.mp hfilter)).2
    have hdata : ¬ (Json.ofInt64 5).IsOperators := Json.not_isOperators rfl
    refine ⟨_, _, compile_age rfl, rfl, hdata, ?_⟩
    have hmeets := hasks.data hdata guestRecord
    have hdollar : beginsWith "$" ageField.storageName = false := by decide
    rwa [hdollar, eq_self, true_and] at hmeets
  · obtain ⟨j, hcompares, -, hloaded⟩ := hall guests _ _ .objectId (.string "g1")
      (guestSession guestRecord) (guestSession guestRecord) _ guestType_built rfl rfl rfl rfl
    have hj : j = .string "g1" := by
      cases hcompares with
      | stored hv h => exact (Except.ok.inj (congrArg Prod.fst h)).symm
      | container hv h => cases hv
      | integer hs => cases hs
      | number hs => cases hs
    subst hj
    exact ⟨_, _, rfl, rfl, rfl, hloaded (Json.not_isOperators rfl)⟩

/-- A guest of five years is found by the text `5`, although nothing is stored like that, neither the
text by itself nor by the field. A guest whose id is a list is found by an item of it. -/
theorem guest_not_equal : guestType.Built ∧
    (∃ filter cause,
      (compile .empty guestType [("age", .string "5")]).runFrom .fresh = (.ok filter, .fresh) ∧
      guestRecord.meets filter = .ok true ∧
      (Value.string "5").plain.runFrom .fresh = (.ok (.string "5"), .fresh) ∧
      ¬ Finds (.string "5") (guestRecord.lookup "age") ∧
      ((Value.string "5").encode ageField).runFrom .fresh = (.error cause, .fresh)) ∧
    ∃ q d, guests.withKey (.int 1) = .ok q ∧
      (q.all guestMapper).runFrom (guestSession [(idKey, .array [.ofInt64 1])]) =
        (.ok [d], guestSession [(idKey, .array [.ofInt64 1])]) ∧
      d.raw = some [(idKey, .array [.ofInt64 1])] ∧
      ¬ Same (.array [.ofInt64 1]) (.ofInt64 1) := by
  have hunlike : ¬ Finds (.string "5") (guestRecord.lookup "age") := by
    rw [← equalsAny_iff]
    exact Bool.false_ne_true
  refine ⟨guestType_built, ⟨_, _, compile_age rfl, rfl, rfl, hunlike, rfl⟩, _, _, rfl, rfl, rfl, ?_⟩
  rw [← Json.sameValue_iff]
  decide

end DocumentMapper
