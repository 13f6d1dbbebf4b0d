import DocumentMapper.Proofs.KeywordConditions
import DocumentMapper.Proofs.RoundTrip
import DocumentMapper.Proofs.SameValues

/-!
# Conditions on references to any type

A field of references to any type stores an envelope, which has the collection and the id of a
document as its inner part. A condition of equality on the field is made for that part: its path
goes on to the part, and its operand is the collection with the id, in the form in which it is
stored.

The keys of that operand begin with a dollar sign. So the evaluation of the filter takes the operand
for an object of operators and fails on the first, which it does not know, whatever the document
has. Under the operator of equality the same operand finds exactly the references to the document.

## Main results

* `Field.envelope_of_encode`: what a field of references to any type stores;
* `reference_condition_refused`: what a condition of equality on such a field is compiled to, how
  its evaluation fails, and what it would find.
-/

namespace DocumentMapper

open Text

variable {c : Catalog} {t : DocumentType} {f : Field} {key collection : String} {v w : Value}
  {σ σ' : Supply} {id j : Json}

/-! ### What is compared -/

/-- What points to the document with an id in a collection: a reference, or a document that has the
id as its key. -/
inductive Value.PointsTo (collection : String) (id : Json) (σ σ' : Supply) : Value → Prop where
  | reference (className : Option String) (hσ : σ' = σ) :
      PointsTo collection id σ σ' (.reference (.generic collection className id))
  | document {doc : Document} (hcollection : doc.type.collection = some collection)
      (hid : id.isNull = false) (hkey : doc.keyJson.runFrom σ = (.ok id, σ')) :
      PointsTo collection id σ σ' (.document doc)
  | linked {doc : Document} (hcollection : doc.type.collection = some collection)
      (hid : id.isNull = false) (hkey : doc.keyJson.runFrom σ = (.ok id, σ')) :
      PointsTo collection id σ σ' (.linked doc)

/-- The parts of the reference to a document with a key. -/
theorem Field.runFrom_linkParts (hcollection : t.collection = some collection)
    (hid : id.isNull = false) {keyJson : Drawing Json} (hkey : keyJson.runFrom σ = (.ok id, σ')) :
    (f.linkParts t keyJson).runFrom σ = (.ok (collection, id), σ') := by
  simp [linkParts, linkId, hcollection, Drawing.runFrom_bind, hkey, hid]

/-- A reference to any type is compared by its collection and its id. -/
theorem Value.PointsTo.operand (h : v.PointsTo collection id σ σ')
    (hkind : f.kind = .genericReference) :
    (f.operand none v).runFrom σ = (.ok (Reference.pair collection id), σ') := by
  have hoperand : v.isNull = false → f.operand none v = f.genericOperand v := by
    intro hnull
    obtain ⟨name, storageName, isRequired, kind, dflt, validator⟩ := f
    obtain rfl : kind = .genericReference := hkind
    simp only [Field.operand, Kind.operand, hnull, Bool.false_eq_true, ↓reduceIte]
  cases h with
  | reference className hσ =>
    subst hσ
    rw [hoperand rfl]
    rfl
  | document hcollection hid hkey =>
    rw [hoperand rfl]
    simp [Field.genericOperand, Field.runFrom_linkParts hcollection hid hkey, Except.map]
  | linked hcollection hid hkey =>
    rw [hoperand rfl]
    simp [Field.genericOperand, Field.runFrom_linkParts hcollection hid hkey, Except.map]

/-! ### What is stored -/

/-- **A field of references to any type stores null or an envelope.** -/
theorem Field.envelope_of_encode (hkind : f.kind = .genericReference) (h : (w.encode f).Gives j) :
    j = .null ∨ ∃ collection className id, j = genericEnvelope collection className id := by
  have hlink : ∀ {doc : Document}, (f.linkEnvelope doc.type doc.keyJson).Gives j →
      ∃ collection className id, j = genericEnvelope collection className id := by
    intro doc h
    obtain ⟨⟨collection, id⟩, -, hpure⟩ := Drawing.Gives.of_bind h
    exact ⟨collection, _, id, Drawing.gives_pure.mp hpure⟩
  have hleaf : ∀ {leaf : Value}, (f.encodeLeaf leaf).Gives j →
      ∃ collection className id, j = genericEnvelope collection className id := by
    intro leaf h
    obtain ⟨-, -, h⟩ := Drawing.Gives.of_bind h
    simp only [hkind, Field.encodeGeneric] at h
    split at h
    · exact ⟨_, _, _, Drawing.gives_pure.mp h⟩
    · exact absurd h Drawing.not_gives_throw
  cases w with
  | null => exact .inl (Drawing.gives_pure.mp h)
  | list items =>
    obtain ⟨-, -, h⟩ := Drawing.Gives.of_bind h
    rw [hkind] at h
    exact absurd h Drawing.not_gives_throw
  | dict entries =>
    obtain ⟨-, -, h⟩ := Drawing.Gives.of_bind h
    rw [hkind] at h
    exact absurd h Drawing.not_gives_throw
  | document doc =>
    obtain ⟨-, -, h⟩ := Drawing.Gives.of_bind h
    rw [hkind] at h
    exact .inr (hlink h)
  | linked doc =>
    obtain ⟨-, -, h⟩ := Drawing.Gives.of_bind h
    rw [hkind] at h
    exact .inr (hlink h)
  | _ => exact .inr (hleaf h)

/-- Whether what a record has for a field is what the field stores for some value. -/
def Field.StoredIn (f : Field) (r : Object) : Prop :=
  ∀ j, r.get? f.storageName = some j → ∃ w : Value, (w.encode f).Gives j

/-- The inner part of an envelope is its collection with its id. -/
theorem reach_inner (collection : String) (className : Option String) (id : Json) :
    Json.reach ["_ref"] (genericEnvelope collection className id) =
      [Reference.pair collection id] := by
  cases className <;> simp [genericEnvelope, Json.reach, Entries.get?, classKey]

/-- **The path of the condition leads to the inner part of what is stored**, if a reference is. -/
theorem lookup_inner (hkind : f.kind = .genericReference) (hname : IsSegment f.storageName)
    {r : Object} (hstored : f.StoredIn r) :
    (r.lookup (f.storageName ++ "._ref") = [] ∧
        (r.get? f.storageName).bind Json.reference? = none) ∨
      ∃ collection className id,
        r.lookup (f.storageName ++ "._ref") = [Reference.pair collection id] ∧
        (r.get? f.storageName).bind Json.reference? =
          some (.generic collection className id) := by
  have hpath : dottedSegments (f.storageName ++ "._ref") = [f.storageName, "_ref"] := by
    have hbelow := dottedSegments_below f.storageName (s := "_ref") (by decide)
    rwa [String.append_assoc, dottedSegments_of_isSegment hname] at hbelow
  rw [Object.lookup, hpath, Json.reach_object]
  cases hget : Entries.get? r f.storageName with
  | none => exact .inl ⟨rfl, rfl⟩
  | some j =>
    obtain ⟨w, hw⟩ := hstored j hget
    rcases Field.envelope_of_encode hkind hw with rfl | ⟨collection, className, id, rfl⟩
    · exact .inl ⟨rfl, rfl⟩
    · exact .inr ⟨collection, className, id, reach_inner collection className id,
        reference?_genericEnvelope collection className id⟩

/-! ### What is found -/

/-- Two references into collections are compared part by part. -/
theorem equal_pair {collection collection' : String} {id id' : Json} :
    (Reference.pair collection' id').equal (Reference.pair collection id) = true ↔
      collection' = collection ∧ id'.equal id = true := by
  simp [Reference.pair, Json.equal, Json.entriesIn, Entries.get?]

/-- A filter finds a reference among one value when it is that value. -/
theorem equalsAny_pair {collection collection' : String} {id id' : Json} :
    equalsAny [Reference.pair collection' id'] (Reference.pair collection id) = true ↔
      collection' = collection ∧ id'.equal id = true := by
  rw [← equal_pair]
  simp [equalsAny, Json.sameValue, Json.isNumber, Reference.pair, Json.asArray?]

/-- **A condition of equality on a reference to any type is refused by the evaluation**, which takes
the reference for operators, although the same reference under the operator of equality finds
exactly the records with a reference into the collection with the id. -/
theorem reference_condition_refused (c : Catalog) (hkey : IsName key)
    (hf : t.field? (t.attributeOf key) = some f) (hkind : f.kind = .genericReference)
    (hname : IsSegment f.storageName) (hdollar : beginsWith "$" f.storageName = false)
    (hv : v.PointsTo collection id σ σ') :
    (compile c t [(key, v)]).runFrom σ =
        (.ok [(f.storageName ++ "._ref", Reference.pair collection id)], σ') ∧
      ∀ r : Object,
        r.meets [(f.storageName ++ "._ref", Reference.pair collection id)] =
          .error (.filterOperator "$ref") ∧
        (f.StoredIn r → ∃ found,
          r.meets [(f.storageName ++ "._ref", .single "$eq" (Reference.pair collection id))] =
            .ok found ∧
          (found = true ↔ ∃ className id',
            (r.get? f.storageName).bind Json.reference? =
              some (.generic collection className id') ∧ id'.equal id = true)) := by
  have hpath : beginsWith "$" (f.storageName ++ "._ref") = false := by
    simp only [beginsWith, String.toList_append] at hdollar ⊢
    cases hchars : f.storageName.toList with
    | nil => rfl
    | cons c rest => simpa [hchars, List.isPrefixOf] using hdollar
  constructor
  · refine (compile_field_eq_ok hkey.ne_rawKey hkey.read hf).mpr ⟨_, hv.operand hkind, ?_⟩
    simp [Field.comparedPath, hkind, underOperator, Reference.pair, genericSuffix,
      Entries.contains, Entries.get?]
  · intro r
    rw [meets_single hpath, meets_single hpath]
    have hoperators : isOperatorMap [("$ref", .string collection), ("$id", id)] = true := by
      simp [isOperatorMap, beginsWith]
    refine ⟨?_, fun hstored => ⟨_, conditionHolds_single (by decide) _ _, ?_⟩⟩
    · rw [Reference.pair, conditionHolds, if_pos hoperators, operatorsHold_cons]
      rfl
    rcases lookup_inner hkind hname hstored with ⟨hnothing, hnone⟩ | ⟨_, _, _, hlookup, hsome⟩
    · rw [hnothing, hnone]
      simp [equalsAny, Reference.pair, Json.isNull]
    · rw [hlookup, hsome, equalsAny_pair]
      simp [Reference.generic]

/-! ### Photos by their owner -/

/-- Photos have an owner of any type. -/
def photoType : DocumentType where
  name := "Photo"
  className := "Photo"
  collection := some "photos"
  fields := [{ Field.ofKind "id" (.scalar .objectId) with storageName := idKey },
    .ofKind "owner" .genericReference]
  primaryKey := some "id"
  isDynamic := false
  allowsInheritance := false
  superclass := none

theorem photoType_built : photoType.Built := by
  let plain : Declaration := (Declaration.document "Photo").inCollection "photos"
  exact ⟨plain.withField (.ofKind "owner" .genericReference), rfl⟩

/-- The reference to a user. -/
def someUser : Value :=
  .reference (.generic "users" none (.string "u1"))

/-- A photo of the user. -/
def ownedPhoto : Document :=
  ⟨photoType, [("id", .string "p1"), ("owner", someUser)], .empty, none⟩

/-- The photo as it is stored. -/
def photoRecord : Object :=
  [(idKey, .string "p1"), ("owner", genericEnvelope "users" none (.string "u1"))]

theorem toStorage_ownedPhoto : ownedPhoto.toStorage.Yields photoRecord :=
  fun _ => rfl

theorem isName_owner : IsName "owner" :=
  ⟨by decide, by decide⟩

theorem storedIn_photoRecord : (Field.ofKind "owner" .genericReference).StoredIn photoRecord := by
  intro j hj
  obtain rfl := Option.some.inj hj
  exact ⟨someUser, .fresh, .fresh, rfl⟩

theorem reference_condition_refused_photo : photoType.Built ∧ IsName "owner" ∧
    photoType.field? (photoType.attributeOf "owner") = some (.ofKind "owner" .genericReference) ∧
    someUser.PointsTo "users" (.string "u1") .fresh .fresh ∧
    (compile .empty photoType [("owner", someUser)]).runFrom .fresh =
      (.ok [("owner._ref", Reference.pair "users" (.string "u1"))], .fresh) ∧
    photoRecord.meets [("owner._ref", Reference.pair "users" (.string "u1"))] =
      .error (.filterOperator "$ref") ∧
    (Field.ofKind "owner" .genericReference).StoredIn photoRecord ∧
    ∃ found, photoRecord.meets
      [("owner._ref", .single "$eq" (Reference.pair "users" (.string "u1")))] = .ok found ∧
      (found = true ↔ ∃ className id', (photoRecord.get? "owner").bind Json.reference? =
        some (.generic "users" className id') ∧ id'.equal (.string "u1") = true) := by
  have hfield : photoType.field? (photoType.attributeOf "owner") =
      some (.ofKind "owner" .genericReference) := rfl
  have hpoints : someUser.PointsTo "users" (.string "u1") .fresh .fresh := .reference none rfl
  obtain ⟨hcompile, hmeets⟩ := reference_condition_refused .empty isName_owner hfield rfl
    (by decide) (by decide) hpoints
  obtain ⟨hrefused, hfound⟩ := hmeets photoRecord
  exact ⟨photoType_built, isName_owner, hfield, hpoints, hcompile, hrefused, storedIn_photoRecord,
    hfound storedIn_photoRecord⟩

/-- A photo is not found by its owner. -/
theorem ownedPhoto_not_found : photoType.Built ∧ ownedPhoto.toStorage.Yields photoRecord ∧
    (photoRecord.get? "owner").bind Json.reference? = someUser.asReference? ∧
    ∃ filter, (compile .empty photoType [("owner", someUser)]).runFrom .fresh =
        (.ok filter, .fresh) ∧
      photoRecord.meets filter = .error (.filterOperator "$ref") :=
  ⟨photoType_built, toStorage_ownedPhoto, rfl, _, rfl, rfl⟩

end DocumentMapper
