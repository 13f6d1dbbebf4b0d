import Mathlib.Data.Bool.Basic
import Mathlib.Data.String.Basic
import DocumentMapper.Proofs.AnsweredFilters
import DocumentMapper.Proofs.EqualityOperands
import DocumentMapper.Proofs.ListedValues
import DocumentMapper.Proofs.RoundTrip

/-!
# Comparisons of scalar fields

A field of integers, texts or truth values is compared by keyword conditions: for equality, in the
order of its kind, with a list of values, or for being there at all. Each of them says of the stored
form of a document what it says of the value in memory, where a missing value and null are the same,
and several of them on one field say it together.

## Main results

* `Document.get?_stored`: what a document stores for a declared field;
* `Comparison.compile_eq`, `Comparison.answers`: the filter of a comparison, and what it answers;
* `comparisons_faithful`: comparisons of stored documents, for every field, document and operand.
-/

namespace DocumentMapper

open Text Drawing

/-! ### Values that are compared -/

/-- A value with an order: an integer, a text or a truth value. -/
inductive Comparable where
  | int (n : Int64)
  | string (s : String)
  | bool (b : Bool)
deriving DecidableEq

namespace Comparable

/-- The kind of fields for the value. -/
def kind : Comparable → Scalar
  | int _ => .int
  | string _ => .string
  | bool _ => .bool

def toValue : Comparable → Value
  | int n => .int n
  | string s => .string s
  | bool b => .bool b

/-- The stored form. -/
def toJson : Comparable → Json
  | int n => .ofInt64 n
  | string s => .string s
  | bool b => .bool b

/-- The order of values of one kind: integers by size, texts by their characters, and false before
true. -/
inductive Before : Comparable → Comparable → Prop where
  | int {m n : Int64} (h : m < n) : Before (int m) (int n)
  | string {s t : String} (h : s < t) : Before (string s) (string t)
  | bool {a b : Bool} (h : a < b) : Before (bool a) (bool b)

@[simp] theorem before_int {m n : Int64} : (int m).Before (int n) ↔ m < n :=
  ⟨fun h => by cases h; assumption, .int⟩

@[simp] theorem before_string {s t : String} : (string s).Before (string t) ↔ s < t :=
  ⟨fun h => by cases h; assumption, .string⟩

@[simp] theorem before_bool {a b : Bool} : (bool a).Before (bool b) ↔ a < b :=
  ⟨fun h => by cases h; assumption, .bool⟩

variable (v w : Comparable)

theorem asObject?_toJson : v.toJson.asObject? = none := by
  cases v <;> rfl

theorem asArray?_toJson : v.toJson.asArray? = none := by
  cases v <;> rfl

theorem isNull_toJson : v.toJson.isNull = false := by
  cases v <;> rfl

/-- Stored forms are taken for the same when the values are. -/
theorem sameValue_toJson : v.toJson.sameValue w.toJson = true ↔ v = w := by
  cases v <;> cases w <;>
    simp [toJson, Json.sameValue, Json.ofInt64, Json.isNumber, Json.equal, Json.compare?,
      Json.asInt64?]

variable {v w} in
/-- Stored forms of one kind stand in the order of the values. -/
theorem compare?_toJson (h : v.kind = w.kind) :
    ∃ o, v.toJson.compare? w.toJson = some o ∧
      (o = .lt ↔ v.Before w) ∧ (o = .eq ↔ v = w) ∧ (o = .gt ↔ w.Before v) := by
  cases v with
  | int m =>
    cases w with
    | int n =>
      have hcompare : (toJson (int m)).compare? (toJson (int n)) = some (Ord.compare m n) := by
        simp [toJson, Json.ofInt64, Json.compare?, Json.asInt64?]
      exact ⟨_, hcompare, Std.compare_eq_lt.trans before_int.symm, by simp,
        Std.compare_eq_gt.trans before_int.symm⟩
    | _ => cases h
  | string s =>
    cases w with
    | string t =>
      have hafter : Ord.compare s t = .gt ↔ t < s := compare_gt_iff_gt
      exact ⟨Ord.compare s t, rfl, compare_lt_iff_lt.trans before_string.symm, by simp,
        hafter.trans before_string.symm⟩
    | _ => cases h
  | bool a =>
    cases w with
    | bool b =>
      have hafter : Ord.compare a b = .gt ↔ b < a := compare_gt_iff_gt
      exact ⟨Ord.compare a b, rfl, compare_lt_iff_lt.trans before_bool.symm, by simp,
        hafter.trans before_bool.symm⟩
    | _ => cases h

end Comparable

/-! ### Comparisons -/

/-- A comparison by a keyword condition. -/
inductive Comparison where
  | equal (v : Comparable)
  | notEqual (v : Comparable)
  | greater (v : Comparable)
  | atLeast (v : Comparable)
  | less (v : Comparable)
  | atMost (v : Comparable)
  | oneOf (vs : List Comparable)
  | noneOf (vs : List Comparable)
  | present (b : Bool)

namespace Comparison

/-- The operator that is read behind a name. -/
def operator : Comparison → Option String
  | equal _ => none
  | notEqual _ => some "ne"
  | greater _ => some "gt"
  | atLeast _ => some "gte"
  | less _ => some "lt"
  | atMost _ => some "lte"
  | oneOf _ => some "in"
  | noneOf _ => some "nin"
  | present _ => some "exists"

/-- The values that are compared with. -/
def compared : Comparison → List Comparable
  | equal v | notEqual v | greater v | atLeast v | less v | atMost v => [v]
  | oneOf vs | noneOf vs => vs
  | present _ => []

/-- The value that is given under the keyword. -/
def operand : Comparison → Value
  | equal v | notEqual v | greater v | atLeast v | less v | atMost v => v.toValue
  | oneOf vs | noneOf vs => .list (vs.map Comparable.toValue)
  | present b => .bool b

/-- The comparison of a field as a keyword with its value. -/
def keyword (name : String) (comparison : Comparison) : String × Value :=
  (match comparison.operator with
    | some op => name ++ "__" ++ op
    | none => name, comparison.operand)

/-- What a comparison says of a value in memory, which may be missing. -/
def Holds (x : Option Comparable) : Comparison → Prop
  | equal v => x = some v
  | notEqual v => ¬ x = some v
  | greater v => ∃ y, x = some y ∧ v.Before y
  | atLeast v => ∃ y, x = some y ∧ (y = v ∨ v.Before y)
  | less v => ∃ y, x = some y ∧ y.Before v
  | atMost v => ∃ y, x = some y ∧ (y = v ∨ y.Before v)
  | oneOf vs => ∃ v ∈ vs, x = some v
  | noneOf vs => ¬ ∃ v ∈ vs, x = some v
  | present b => x.isSome = b

/-- The condition of a comparison in a filter. -/
def condition : Comparison → Json
  | equal v => v.toJson
  | notEqual v => .single "$ne" v.toJson
  | greater v => .single "$gt" v.toJson
  | atLeast v => .single "$gte" v.toJson
  | less v => .single "$lt" v.toJson
  | atMost v => .single "$lte" v.toJson
  | oneOf vs => .single "$in" (.array (vs.map Comparable.toJson))
  | noneOf vs => .single "$nin" (.array (vs.map Comparable.toJson))
  | present b => .single "$exists" (.bool b)

end Comparison

/-! ### Compiling -/

section Compile

variable {c : Catalog} {t : DocumentType} {f : Field} {name : String} {s : Scalar}

/-- A value is encoded as it is where there is no validator. -/
theorem Comparable.encode_toValue {v : Comparable} (hkind : f.kind = .scalar v.kind)
    (hvalidator : f.validator = none) : v.toValue.encode f = pure v.toJson := by
  have hcheck : ∀ w, f.check w = pure () := by
    intro w
    rw [Field.check, hvalidator]
    rfl
  cases v <;> simp [toValue, toJson, Value.encode, Field.encodeLeaf, hcheck, hkind, kind,
    Field.encodeScalar]

/-- What is compared is the stored form, under every operator but those of texts. -/
theorem Comparable.operand_toValue {v : Comparable} (hkind : f.kind = .scalar v.kind)
    (hvalidator : f.validator = none) {op : Option String}
    (hop : ∀ o, op = some o → isTextOperator o = false) :
    f.operand op v.toValue = pure v.toJson := by
  rw [← encode_toValue hkind hvalidator]
  obtain ⟨fname, storageName, isRequired, kind', dflt, validator⟩ := f
  obtain rfl : kind' = .scalar v.kind := hkind
  cases v with
  | string s =>
    cases op with
    | none => rfl
    | some o => simp [Field.operand, Kind.operand, toValue, Value.isNull, hop o rfl,
        Field.scalarOperand, kind]
  | _ => cases op <;> rfl

/-- A list of values is compared item by item. -/
theorem Comparable.listOperand_toValue {vs : List Comparable}
    (hkind : ∀ v ∈ vs, f.kind = .scalar v.kind) (hvalidator : f.validator = none) {op : String}
    (hop : isTextOperator op = false) :
    f.listOperand op (.list (vs.map toValue)) = pure (.array (vs.map toJson)) := by
  have hitems : (vs.map toValue).mapM (fun item => f.operand (some op) item) =
      pure (vs.map toJson) := by
    induction vs with
    | nil => rfl
    | cons v vs ih =>
      obtain ⟨hfirst, hrest⟩ := List.forall_mem_cons.mp hkind
      have hoperand : f.operand (some op) v.toValue = pure v.toJson :=
        operand_toValue hfirst hvalidator fun o ho => Option.some.inj ho ▸ hop
      rw [List.map_cons, List.mapM_cons, hoperand, ih hrest]
      rfl
  rw [Field.listOperand, hitems]
  rfl

/-- The operand of a comparison is its condition, apart from the operator. -/
theorem Comparison.compileOperand_eq {comparison : Comparison}
    (hkind : ∀ v ∈ comparison.compared, f.kind = .scalar v.kind) (hvalidator : f.validator = none)
    (itemMatch : Field → Drawing Json) : ∃ j,
      compileOperand f comparison.operator comparison.operand itemMatch = pure j ∧
        underOperator comparison.operator j = comparison.condition := by
  have hsingle : ∀ {v : Comparable} (op : String), f.kind = .scalar v.kind →
      isTextOperator op = false → f.operand (some op) v.toValue = pure v.toJson :=
    fun op hv hop => Comparable.operand_toValue hv hvalidator fun o ho => Option.some.inj ho ▸ hop
  have hlist : ∀ {vs : List Comparable} (op : String), (∀ v ∈ vs, f.kind = .scalar v.kind) →
      isTextOperator op = false →
      f.listOperand op (.list (vs.map Comparable.toValue)) =
        pure (.array (vs.map Comparable.toJson)) :=
    fun op hvs hop => Comparable.listOperand_toValue hvs hvalidator hop
  cases comparison with
  | equal v =>
    exact ⟨_, Comparable.operand_toValue (hkind v List.mem_cons_self) hvalidator nofun, rfl⟩
  | notEqual v => exact ⟨_, hsingle "ne" (hkind v List.mem_cons_self) (by decide), rfl⟩
  | greater v => exact ⟨_, hsingle "gt" (hkind v List.mem_cons_self) (by decide), rfl⟩
  | atLeast v => exact ⟨_, hsingle "gte" (hkind v List.mem_cons_self) (by decide), rfl⟩
  | less v => exact ⟨_, hsingle "lt" (hkind v List.mem_cons_self) (by decide), rfl⟩
  | atMost v => exact ⟨_, hsingle "lte" (hkind v List.mem_cons_self) (by decide), rfl⟩
  | oneOf vs => exact ⟨_, hlist "in" hkind (by decide), rfl⟩
  | noneOf vs => exact ⟨_, hlist "nin" hkind (by decide), rfl⟩
  | present b => exact ⟨.bool b, rfl, rfl⟩

/-- The keyword of a comparison is no raw filter. -/
theorem Comparison.ne_rawKey_keyword (comparison : Comparison) (hname : TakesOperator name) :
    (comparison.keyword name).1 ≠ rawKey := by
  cases comparison with
  | equal v => exact hname.isName.ne_rawKey
  | notEqual v | greater v | atLeast v | less v | atMost v | oneOf v | noneOf v | present v =>
    exact hname.ne_rawKey ⟨by decide +kernel, by decide⟩

/-- The parts of the keyword of a comparison. -/
theorem Comparison.read_keyword (comparison : Comparison) (hname : TakesOperator name) :
    Keyword.read (comparison.keyword name).1 = ⟨[name], comparison.operator, false, []⟩ := by
  cases comparison with
  | equal v => exact hname.isName.read
  | notEqual v | greater v | atLeast v | less v | atMost v | oneOf v | noneOf v | present v =>
    exact hname.read ⟨by decide +kernel, by decide⟩ (by decide)

/-- **The filter of a comparison** has its condition at the storage name of the field. -/
theorem Comparison.compile_eq (c : Catalog) {comparison : Comparison} (hname : TakesOperator name)
    (hf : t.field? (t.attributeOf name) = some f) (hs : f.kind = .scalar s)
    (hkind : ∀ v ∈ comparison.compared, v.kind = s) (hvalidator : f.validator = none)
    (σ : Supply) : (compile c t [comparison.keyword name]).runFrom σ =
      (.ok [(f.storageName, comparison.condition)], σ) := by
  obtain ⟨j, hoperand, hcondition⟩ := comparison.compileOperand_eq
    (fun v hv => by rw [hs, hkind v hv]) hvalidator fun g => comparison.operand.itemMatch c g
  have hpath : f.comparedPath j = f.storageName := by
    rw [Field.comparedPath, hs]
  refine (compile_field_eq_ok (comparison.ne_rawKey_keyword hname)
    (comparison.read_keyword hname) hf).mpr ⟨j, ?_, ?_⟩
  · exact congrArg (Drawing.runFrom · σ) hoperand
  · rw [hpath, hcondition]

end Compile

/-! ### Evaluating -/

/-- What is found where a value is stored, or nothing. -/
def Comparable.found (x : Option Comparable) : List Json :=
  (x.map toJson).toList

section Evaluate

variable {x : Option Comparable} {v : Comparable}

theorem Comparable.equalsAny_found : equalsAny (found x) v.toJson = true ↔ x = some v := by
  cases x with
  | none => simp [found, equalsAny, isNull_toJson]
  | some y => simp [found, equalsAny, asArray?_toJson, sameValue_toJson]

theorem Comparable.anyOf_toJson (v : Comparable) (test : Json → Bool) :
    v.toJson.anyOf test = test v.toJson := by
  cases v <;> rfl

theorem Comparable.comparesAny_found (hkind : ∀ y ∈ x, y.kind = v.kind)
    {accept : Ordering → Bool} {R : Comparable → Prop}
    (haccept : ∀ (y : Comparable) (o : Ordering), (o = .lt ↔ y.Before v) → (o = .eq ↔ y = v) →
      (o = .gt ↔ v.Before y) → (accept o = true ↔ R y)) :
    comparesAny accept (found x) v.toJson = true ↔ ∃ y, x = some y ∧ R y := by
  cases x with
  | none => simp [found, comparesAny]
  | some y =>
    obtain ⟨o, hcompare, hlt, heq, hgt⟩ := compare?_toJson (hkind y rfl)
    simp [found, comparesAny, anyOf_toJson, hcompare, haccept y o hlt heq hgt]

/-- **What a comparison answers** of a value that is found, and of nothing. -/
theorem Comparison.answers {comparison : Comparison}
    (hkind : ∀ v ∈ comparison.compared, ∀ y ∈ x, y.kind = v.kind) (depth : Nat) :
    ∃ b, conditionHolds comparison.condition (Comparable.found x) depth = .ok b ∧
      (b = true ↔ comparison.Holds x) := by
  have hplain : ∀ (vs : List Comparable), ∀ j ∈ vs.map Comparable.toJson, ¬ j.IsPattern := by
    intro vs j hj
    obtain ⟨v, -, rfl⟩ := List.mem_map.mp hj
    exact Json.not_isPattern v.asObject?_toJson
  have hlisted : ∀ (vs : List Comparable),
      (vs.map Comparable.toJson).any (equalsAny (Comparable.found x)) = true ↔
        ∃ v ∈ vs, x = some v := by
    intro vs
    simp [Comparable.equalsAny_found]
  cases comparison with
  | equal v =>
    exact ⟨_, conditionHolds_of_data (Json.not_isOperators v.asObject?_toJson) _ depth,
      Comparable.equalsAny_found⟩
  | notEqual v =>
    refine ⟨_, conditionHolds_ne v.toJson _ depth, ?_⟩
    rw [Bool.not_eq_true', ← Bool.not_eq_true, Comparable.equalsAny_found, Holds]
  | greater v =>
    refine ⟨_, conditionHolds_single (by decide) _ depth, ?_⟩
    refine Comparable.comparesAny_found (hkind v List.mem_cons_self) fun y o _ _ hgt => ?_
    rw [beq_iff_eq, hgt]
  | atLeast v =>
    refine ⟨_, conditionHolds_single (by decide) _ depth, ?_⟩
    refine Comparable.comparesAny_found (hkind v List.mem_cons_self) fun y o _ heq hgt => ?_
    rw [← heq, ← hgt]
    cases o <;> decide
  | less v =>
    refine ⟨_, conditionHolds_single (by decide) _ depth, ?_⟩
    refine Comparable.comparesAny_found (hkind v List.mem_cons_self) fun y o hlt _ _ => ?_
    rw [beq_iff_eq, hlt]
  | atMost v =>
    refine ⟨_, conditionHolds_single (by decide) _ depth, ?_⟩
    refine Comparable.comparesAny_found (hkind v List.mem_cons_self) fun y o hlt heq _ => ?_
    rw [← heq, ← hlt]
    cases o <;> decide
  | oneOf vs => exact ⟨_, conditionHolds_in (hplain vs) _ depth, hlisted vs⟩
  | noneOf vs =>
    refine ⟨_, conditionHolds_nin (hplain vs) _ depth, ?_⟩
    rw [Bool.not_eq_true', ← Bool.not_eq_true, hlisted, Holds]
  | present b =>
    refine ⟨_, conditionHolds_single (by decide) _ depth, ?_⟩
    cases x <;> cases b <;> simp [Comparable.found, Json.isTruthy, Holds]

theorem Comparison.answerable {comparison : Comparison}
    (hkind : ∀ v ∈ comparison.compared, ∀ y ∈ x, y.kind = v.kind) :
    Answerable (Comparable.found x) comparison.condition := by
  have hanswered : ∀ depth, ∃ b,
      conditionHolds comparison.condition (Comparable.found x) depth = .ok b := by
    intro depth
    obtain ⟨b, hb, -⟩ := comparison.answers hkind depth
    exact ⟨b, hb⟩
  cases comparison with
  | equal v => exact .data v.asObject?_toJson
  | notEqual v | greater v | atLeast v | less v | atMost v | oneOf vs | noneOf vs | present b =>
    exact .single (by decide) (by decide) rfl hanswered

theorem Comparison.isSelfContained_condition (comparison : Comparison) :
    comparison.condition.isSelfContained = true := by
  cases comparison with
  | equal v => cases v <;> rfl
  | _ => rfl

end Evaluate

/-! ### Stored values -/

namespace Document

variable {d d' : Document} {f : Field} {name key : String} {v : Value} {r : Object}

/-- Whether a document has only attributes that its type accepts: declared ones, or any if the type
is dynamic. -/
def IsAccepted (d : Document) : Prop :=
  ∀ key ∈ d.values.map Prod.fst, (d.type.field? key).isSome ∨ d.type.isDynamic = true

theorem IsAccepted.put (h : d.IsAccepted) (hname : d.attributeName name = .ok key) (v : Value) :
    (d.put key v).IsAccepted := by
  intro other hother
  rcases Entries.mem_keys_insertSorted.mp hother with rfl | hother
  · simp only [attributeName] at hname
    split at hname
    · rename_i hok
      cases hname
      exact Bool.or_eq_true_iff.mp hok
    · cases hname
  · exact h other hother

theorem IsAccepted.fill {values : List (String × Value)} (h : d.IsAccepted)
    (hfill : d.fill values = .ok d') : d'.IsAccepted := by
  induction values generalizing d with
  | nil =>
    cases hfill
    exact h
  | cons e rest ih =>
    obtain ⟨key, hname, hrest⟩ := bind_eq_ok.mp hfill
    exact ih (h.put hname e.2) hrest

/-- **A new document is accepted** with the values that it takes. -/
theorem isAccepted_withValues {t : DocumentType} {values : List (String × Value)}
    (h : withValues t values = .ok d) : d.IsAccepted :=
  IsAccepted.fill (d := new t) nofun h

/-- **Assignments keep a document accepted.** -/
theorem IsAccepted.set (h : d.IsAccepted) (hset : d.set name v = .ok d') : d'.IsAccepted := by
  obtain ⟨key, hname, hrest⟩ := bind_eq_ok.mp hset
  split at hrest
  · cases hrest
    exact h
  · cases hrest
    exact h.put hname v

/-- **A document that is read is accepted.** -/
theorem isAccepted_ofStorage (c : Catalog) (t : DocumentType) (raw : Object) :
    (ofStorage c t raw).IsAccepted := by
  cases hdynamic : t.isDynamic with
  | true => exact fun _ _ => .inr hdynamic
  | false =>
    intro key hkey
    obtain ⟨e, he, rfl⟩ := List.mem_map.mp (Entries.mem_keys_ofPairs.mp hkey)
    obtain ⟨f, hf, hname, -⟩ := mem_decodeFields hdynamic he
    exact .inl (List.find?_isSome.mpr ⟨f, hf, by simpa using hname⟩)

/-- **What a document of a static type stores for a field** without a default: its value as the
field encodes it. -/
theorem get?_stored (ht : d.type.Built) (hstatic : d.type.isDynamic = false) (hd : d.IsAccepted)
    (hr : d.toStorage.Gives r) (hf : d.type.field? name = some f) (hdefault : f.default = none)
    (hclass : f.storageName ≠ classKey) :
    ∃ j, (match Entries.get? d.values f.name with
        | some v => v.encode f
        | none => pure .null).Gives j ∧
      r.get? f.storageName = j.unlessNull := by
  obtain ⟨patch, hpatch, hrest⟩ := Gives.of_bind hr
  obtain rfl := gives_pure.mp hrest
  rw [fullPatch_eq] at hpatch
  obtain ⟨middle, hfields, hothers⟩ := Gives.of_bind hpatch
  rw [addUndeclared_eq_pure fun e he => ?_] at hothers
  · obtain rfl := gives_pure.mp hothers
    obtain ⟨j, hj, hget⟩ :=
      (gives_assembleFields ht.storageNames_nodup hfields).1 f (List.mem_of_find?_eq_some hf)
    refine ⟨j, ?_, ?_⟩
    · rw [encoderOf_encodersOf] at hj
      cases hv : Entries.get? d.values f.name with
      | some v => simpa [hv] using hj
      | none =>
        rw [hv] at hj
        exact gives_pure.mpr (gives_encodeDefault_none hdefault hj)
    · rw [hget, get?_classPatch, if_neg fun h => hclass h.2, Option.or_none]
  · have hkey : e.1 ∈ d.values.map Prod.fst := by
      rw [← map_fst_encodersOf]
      exact List.mem_map_of_mem he
    have hsome := (hd e.1 hkey).resolve_right (by simp [hstatic])
    cases hany : d.type.fields.any fun g => g.name == e.1 with
    | true => rfl
    | false => simp [any_fields_eq_false_iff.mp hany] at hsome

/-- The value of an attribute in memory. A missing one counts as none, and so does null. -/
inductive Shows (d : Document) (name : String) : Option Comparable → Prop where
  | missing (h : Entries.get? d.values name = none) : Shows d name none
  | null (h : Entries.get? d.values name = some .null) : Shows d name none
  | value {v : Comparable} (h : Entries.get? d.values name = some v.toValue) : Shows d name (some v)

/-- **A value in memory is what is found** in the stored form. -/
theorem Shows.found {x : Option Comparable} (hx : d.Shows f.name x) (ht : d.type.Built)
    (hstatic : d.type.isDynamic = false) (hd : d.IsAccepted) (hr : d.toStorage.Gives r)
    (hf : d.type.field? name = some f) (hkind : ∀ v ∈ x, f.kind = .scalar v.kind)
    (hdefault : f.default = none) (hvalidator : f.validator = none)
    (hstored : IsSegment f.storageName) (hclass : f.storageName ≠ classKey) :
    r.lookup f.storageName = Comparable.found x := by
  obtain ⟨j, hj, hget⟩ := get?_stored ht hstatic hd hr hf hdefault hclass
  rw [Object.lookup_of_segment (dottedSegments_of_isSegment hstored), hget]
  cases hx with
  | missing h =>
    rw [h] at hj
    obtain rfl := gives_pure.mp hj
    rfl
  | null h =>
    rw [h] at hj
    obtain rfl := gives_pure.mp (by simpa only [Value.encode] using hj)
    rfl
  | @value v h =>
    rw [h] at hj
    simp only [Comparable.encode_toValue (hkind v rfl) hvalidator] at hj
    obtain rfl := gives_pure.mp hj
    rw [Json.unlessNull, v.isNull_toJson]
    rfl

end Document

/-! ### Comparisons of stored documents -/

section

variable {c : Catalog} {t : DocumentType} {f : Field} {name : String} {s : Scalar}
  {comparisons : List Comparison}

/-- **Comparisons of one field are compiled one by one**, each at its storage name. -/
theorem Comparison.compileEach_eq (c : Catalog) (hname : TakesOperator name)
    (hf : t.field? (t.attributeOf name) = some f) (hs : f.kind = .scalar s)
    (hkind : ∀ comparison ∈ comparisons, ∀ v ∈ comparison.compared, v.kind = s)
    (hvalidator : f.validator = none) (σ : Supply) :
    (compileEach c t (comparisons.map (keyword name))).runFrom σ =
      (.ok (atPath f.storageName (comparisons.map condition)), σ) := by
  induction comparisons with
  | nil => rfl
  | cons comparison rest ih =>
    obtain ⟨hfirst, hrest⟩ := List.forall_mem_cons.mp hkind
    exact compileEach_cons_eq_ok.mpr
      ⟨_, σ, _, comparison.compile_eq c hname hf hs hfirst hvalidator σ, ih hrest, rfl⟩

theorem Comparison.compileEntries_eq (c : Catalog) (hname : TakesOperator name)
    (hf : t.field? (t.attributeOf name) = some f) (hs : f.kind = .scalar s)
    (hkind : ∀ comparison ∈ comparisons, ∀ v ∈ comparison.compared, v.kind = s)
    (hvalidator : f.validator = none) (σ : Supply) (d : Draft) : ∃ d',
    (compileEntries c (comparisons.map (keyword name)) t d).runFrom σ = (.ok d', σ) := by
  induction comparisons generalizing d with
  | nil => exact ⟨d, rfl⟩
  | cons comparison rest ih =>
    obtain ⟨hfirst, hrest⟩ := List.forall_mem_cons.mp hkind
    obtain ⟨d', hd'⟩ := ih hrest (d.add f.storageName comparison.condition)
    exact ⟨d', (compileEntries_cons_eq_ok (comparison.ne_rawKey_keyword hname)).mpr
      ⟨_, _, σ, comparison.compile_eq c hname hf hs hfirst hvalidator σ, hd'⟩⟩

/-- **Comparisons are faithful to stored documents.** For a field of a static type, with neither a
default nor a validator, every list of comparisons compiles to a filter that is answered on the
stored form of a document, and answers yes exactly if all comparisons hold of the value that the
document has in memory. -/
theorem comparisons_faithful (c : Catalog) {d : Document} {r : Object} {x : Option Comparable}
    (ht : d.type.Built) (hstatic : d.type.isDynamic = false) (hd : d.IsAccepted)
    (hname : TakesOperator name) (hf : d.type.field? (d.type.attributeOf name) = some f)
    (hs : f.kind = .scalar s) (hdefault : f.default = none) (hvalidator : f.validator = none)
    (hstored : IsSegment f.storageName) (hdollar : beginsWith "$" f.storageName = false)
    (hclass : f.storageName ≠ classKey)
    (hx : d.Shows f.name x) (hvalue : ∀ y ∈ x, y.kind = s) (hr : d.toStorage.Gives r)
    (hkind : ∀ comparison ∈ comparisons, ∀ v ∈ comparison.compared, v.kind = s) (σ : Supply) :
    ∃ q b, (compile c d.type (comparisons.map (Comparison.keyword name))).runFrom σ = (.ok q, σ) ∧
      r.meets q = .ok b ∧ (b = true ↔ ∀ comparison ∈ comparisons, comparison.Holds x) := by
  have hfound : r.lookup f.storageName = Comparable.found x :=
    hx.found ht hstatic hd hr hf (fun y hy => by rw [hs, hvalue y hy]) hdefault hvalidator hstored
      hclass
  have hkinds : ∀ comparison ∈ comparisons, ∀ v ∈ comparison.compared, ∀ y ∈ x, y.kind = v.kind :=
    fun comparison hmem v hv y hy => (hvalue y hy).trans (hkind comparison hmem v hv).symm
  obtain ⟨draft, hrun⟩ := Comparison.compileEntries_eq c hname hf hs hkind hvalidator σ ⟨[], []⟩
  have hcollects :
      draft.Collects (atPath f.storageName (comparisons.map Comparison.condition)) := by
    obtain ⟨singles, hsingles, hcollects⟩ := compileEntries_collects (fun e he => by
      obtain ⟨comparison, -, rfl⟩ := List.mem_map.mp he
      exact comparison.ne_rawKey_keyword hname) hrun
    rw [Comparison.compileEach_eq c hname hf hs hkind hvalidator] at hsingles
    obtain rfl := Except.ok.inj (congrArg Prod.fst hsingles)
    exact hcollects [] .nil
  obtain ⟨b, hmeets, hb⟩ : ∃ b, r.meets draft.finish = .ok b ∧ _ := hcollects.meets_finish hdollar
    (List.forall_mem_map.mpr fun comparison hmem => by
      rw [hfound]
      exact comparison.answerable (hkinds comparison hmem))
    (List.forall_mem_map.mpr fun comparison _ => comparison.isSelfContained_condition)
  refine ⟨draft.finish, b, compile_eq_ok.mpr ⟨draft, hrun, rfl⟩, hmeets, ?_⟩
  rw [hb, List.forall_mem_map, hfound]
  refine forall₂_congr fun comparison hmem => ?_
  obtain ⟨b', hanswer, hb'⟩ := comparison.answers (hkinds comparison hmem) 0
  rw [hanswer, Except.ok.injEq, hb']

end

/-- A guest of five years, not yet saved. -/
def youngGuest : Document :=
  ⟨guestType, [("age", .int 5)], .empty, none⟩

theorem takesOperator_age : TakesOperator "age" :=
  ⟨isName_age, by decide⟩

/-- A guest of five is older than three, is neither four nor six, and has an age. -/
def ageComparisons : List Comparison :=
  [.greater (.int 3), .noneOf [.int 4, .int 6], .present true]

theorem keywords_ageComparisons : ageComparisons.map (Comparison.keyword "age") =
    [("age__gt", .int 3), ("age__nin", .list [.int 4, .int 6]), ("age__exists", .bool true)] := by
  simp [ageComparisons, Comparison.keyword, Comparison.operator, Comparison.operand,
    Comparable.toValue]

theorem comparisons_faithful_age :
    guestType.Built ∧ youngGuest.IsAccepted ∧ TakesOperator "age" ∧
    guestType.field? (guestType.attributeOf "age") = some ageField ∧
    youngGuest.Shows "age" (some (.int 5)) ∧ youngGuest.toStorage.Gives [("age", .ofInt64 5)] ∧
    ∃ q b, (compile .empty guestType [("age__gt", .int 3), ("age__nin", .list [.int 4, .int 6]),
        ("age__exists", .bool true)]).runFrom .fresh = (.ok q, .fresh) ∧
      Object.meets [("age", .ofInt64 5)] q = .ok b ∧
      (b = true ↔ ∀ comparison ∈ ageComparisons, comparison.Holds (some (.int 5))) := by
  have haccepted : youngGuest.IsAccepted := by
    intro key hkey
    obtain rfl : key = "age" := by simpa [youngGuest] using hkey
    exact .inl rfl
  have hshows : youngGuest.Shows "age" (some (.int 5)) := .value rfl
  have hstores : youngGuest.toStorage.Gives [("age", .ofInt64 5)] := ⟨.fresh, .fresh, rfl⟩
  have hkind : ∀ comparison ∈ ageComparisons, ∀ v ∈ comparison.compared, v.kind = .int := by
    simp [ageComparisons, Comparison.compared, Comparable.kind]
  refine ⟨guestType_built, haccepted, takesOperator_age, rfl, hshows, hstores, ?_⟩
  rw [← keywords_ageComparisons]
  exact comparisons_faithful .empty guestType_built rfl haccepted takesOperator_age rfl rfl rfl rfl
    (by decide) (by decide) (by decide) hshows (fun y hy => Option.some.inj hy ▸ rfl) hstores hkind
    .fresh

end DocumentMapper
