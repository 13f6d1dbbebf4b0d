import DocumentMapper.Proofs.BuiltTypes
import DocumentMapper.Proofs.DottedPaths
import DocumentMapper.Proofs.Runs
import DocumentMapper.Update.Operations

/-!
# Where an operation writes

The path of an operation is resolved from the type down, one element for each segment, and the
operation writes at the stored names of these elements. Two things get in the way, whatever the
operator. A last segment that is spelled like a comparison is taken off the path before it is
resolved, although only removals compare anything; and an insertion takes a last stored name that is
a number for a position, also where it is the name of a field.

## Main results

* `Catalog.resolve_concat`: a path that resolves does so segment by segment;
* `compileOperation_eq_ok`: what one operation renders;
* `compileUpdate_writes_iff`: an operation that is no removal writes its value at its path exactly
  when neither of the two things happens.
-/

namespace DocumentMapper

open Text

/-! ### Keywords of operations -/

theorem splitAtUnderscores_ne_nil (cs : List Char) : splitAtUnderscores cs ≠ [] := by
  fun_cases splitAtUnderscores cs with
  | case1 => simp
  | case2 cs => simp
  | case3 c cs => cases splitAtUnderscores cs <;> simp [consFirst]

/-- A text is cut behind what has no double underscore and does not end in half of one. -/
theorem splitAtUnderscores_append {cs : List Char} (h : splitAtUnderscores cs = [cs])
    (hlast : cs.getLast? ≠ some '_') (rest : List Char) :
    splitAtUnderscores (cs ++ '_' :: '_' :: rest) = cs :: splitAtUnderscores rest := by
  induction cs with
  | nil => simp [splitAtUnderscores]
  | cons c cs ih =>
    have hsingle : ∀ ds, c = '_' → cs = '_' :: ds → False := by
      rintro ds rfl rfl
      simp [splitAtUnderscores] at h
    have hsingle' : ∀ ds, c = '_' → cs ++ '_' :: '_' :: rest = '_' :: ds → False := by
      rintro ds rfl hds
      cases cs with
      | nil => simp at hlast
      | cons d cs =>
        obtain ⟨rfl, -⟩ := List.cons.inj hds
        exact hsingle cs rfl rfl
    rw [splitAtUnderscores.eq_3 c cs hsingle] at h
    have hsplit : splitAtUnderscores cs = [cs] := by
      cases hcs : splitAtUnderscores cs with
      | nil => exact absurd hcs (splitAtUnderscores_ne_nil cs)
      | cons part parts =>
        rw [hcs] at h
        simpa [consFirst] using h
    have hlast' : cs.getLast? ≠ some '_' := by
      cases cs with
      | nil => simp
      | cons d cs => simpa using hlast
    rw [List.cons_append, splitAtUnderscores.eq_3 c _ hsingle', ih hsplit hlast']
    rfl

/-- **The keyword of an operation is cut behind its operator.** -/
theorem keywordSegments_operation {op : String} (hop : op ∈ updateOperators) (path : String) :
    keywordSegments (op ++ "__" ++ path) = op :: keywordSegments path := by
  have hplain : ∀ op ∈ updateOperators, splitAtUnderscores op.toList = [op.toList] ∧
      op.toList.getLast? ≠ some '_' := by
    decide
  obtain ⟨hsplit, hlast⟩ := hplain op hop
  have htext : (op ++ "__" ++ path).toList = op.toList ++ '_' :: '_' :: path.toList := by simp
  simp [keywordSegments, htext, splitAtUnderscores_append hsplit hlast]

/-- A keyword path has a first segment. -/
theorem keywordSegments_ne_nil (path : String) : keywordSegments path ≠ [] := by
  simp [keywordSegments, splitAtUnderscores_ne_nil]

/-- The keyword of an operation is no raw keyword. -/
theorem ne_rawKey_operation {op : String} (hop : op ∈ updateOperators) (path : String) :
    op ++ "__" ++ path ≠ rawKey := by
  intro heq
  have hsegments := congrArg keywordSegments heq
  rw [keywordSegments_operation hop] at hsegments
  have hraw : keywordSegments rawKey = ["", "raw", ""] := by decide
  rw [hraw] at hsegments
  obtain ⟨rfl, -⟩ := List.cons.inj hsegments
  exact absurd hop (by decide)

/-! ### Resolved paths -/

mutual

/-- What a segment is below a field does not depend on the path that an error would quote. -/
theorem Field.enter_eq_ok (c : Catalog) {path : String} (quoted segment : String) :
    ∀ {f : Field} {r : PathElement × Field}, f.enter c path segment = .ok r →
      f.enter c quoted segment = .ok r
  | ⟨name, _, _, kind, _, _⟩, r, h => by
    simp only [Field.enter] at h ⊢
    exact Kind.enter_eq_ok c quoted segment name h

/-- The same for the kind of a field. -/
theorem Kind.enter_eq_ok (c : Catalog) {path : String} (quoted segment name : String) :
    ∀ {k : Kind} {r : PathElement × Field}, k.enter c path segment name = .ok r →
      k.enter c quoted segment name = .ok r
  | .list element, r, h => by
    simp only [Kind.enter] at h ⊢
    split at h
    · rename_i hpositional
      rw [if_pos hpositional]
      exact h
    · rename_i hpositional
      rw [if_neg hpositional]
      exact Field.enter_eq_ok c quoted segment h
  | .embedded t, r, h => h
  | .scalar s, r, h => by cases s <;> exact h
  | .reference _, r, h => by cases h
  | .genericReference, r, h => by cases h
  | .dict element, r, h => h

end

/-- The elements below a field are found segment by segment. -/
theorem Field.walk_concat (c : Catalog) {path last : String} (quoted : String) {front : List String}
    {f : Field} {elements : List PathElement}
    (h : f.walk c path (front ++ [last]) = .ok elements) :
    ∃ es e, elements = es ++ [e] ∧ f.walk c quoted front = .ok es := by
  induction front generalizing f elements with
  | nil =>
    obtain ⟨r, -, h⟩ := bind_eq_ok.mp h
    cases h
    exact ⟨[], r.1, rfl, rfl⟩
  | cons segment front ih =>
    obtain ⟨r, henter, h⟩ := bind_eq_ok.mp h
    obtain ⟨rest, hwalk, h⟩ := bind_eq_ok.mp h
    obtain ⟨es, e, rfl, hes⟩ := ih hwalk
    refine ⟨r.1 :: es, e, (Except.ok.inj h).symm, ?_⟩
    exact bind_eq_ok.mpr ⟨r, Field.enter_eq_ok c quoted segment henter,
      bind_eq_ok.mpr ⟨es, hes, rfl⟩⟩

/-- **The elements of a path are found segment by segment.** -/
theorem Catalog.resolve_concat {c : Catalog} {t : DocumentType} {front : List String}
    {last : String} {elements : List PathElement} (hfront : front ≠ [])
    (h : c.resolve t (front ++ [last]) = .ok elements) :
    ∃ es e, elements = es ++ [e] ∧ c.resolve t front = .ok es := by
  cases front with
  | nil => exact absurd rfl hfront
  | cons segment front =>
    obtain ⟨f, hfield, h⟩ := bind_eq_ok.mp h
    obtain ⟨rest, hwalk, h⟩ := bind_eq_ok.mp h
    obtain ⟨es, e, rfl, hes⟩ := Field.walk_concat c (joinStrings "__" (segment :: front)) hwalk
    refine ⟨.field f :: es, e, (Except.ok.inj h).symm, ?_⟩
    exact bind_eq_ok.mpr ⟨f, hfield, bind_eq_ok.mpr ⟨es, hes, rfl⟩⟩

/-- A path with segments has elements. -/
theorem Catalog.resolve_ne_nil {c : Catalog} {t : DocumentType} {segments : List String}
    {elements : List PathElement} (hne : segments ≠ []) (h : c.resolve t segments = .ok elements) :
    elements ≠ [] := by
  rintro rfl
  cases segments with
  | nil => exact hne rfl
  | cons segment rest =>
    obtain ⟨f, -, h⟩ := bind_eq_ok.mp h
    obtain ⟨es, -, h⟩ := bind_eq_ok.mp h
    cases h

/-! ### What an operation renders -/

/-- The comparison at the end of a path, and the path before it. -/
def comparisonOf (segments : List String) : Option String × List String :=
  match dropLastIf comparisonOperators.contains segments with
  | some (m, rest) => (some m, rest)
  | none => (none, segments)

/-- An operand under its comparison. -/
def underComparison (matcher : Option String) (operand : Json) : Json :=
  match matcher with
  | some m => .single ("$" ++ (if m = "elem_match" then "elemMatch" else m)) operand
  | none => operand

section

variable {c : Catalog} {t : DocumentType} {op path : String} {v : Value} {s s' : Supply}

theorem runFrom_resolveQuery_eq_ok {names : List String} {elements : List PathElement} :
    (c.resolveQuery t names).runFrom s = (.ok elements, s') ↔
      c.resolve t names = .ok elements ∧ s' = s := by
  unfold Catalog.resolveQuery
  cases c.resolve t names with
  | error cause => simp [Drawing.ofQuery, refuseQuery]
  | ok es => simp [Drawing.ofQuery, eq_comm]

/-- A path is resolved, its last field makes an operand, and something is built from both. -/
theorem runFrom_lastField_eq_ok {α β : Type} {names : List String} {cause : QueryError}
    {operand : Field → Drawing α} {build : List PathElement → Field → α → β} {result : β} :
    (do
      let elements ← c.resolveQuery t names
      match terminalField? elements with
      | none => refuseQuery cause
      | some f =>
        let j ← operand f
        return build elements f j : Drawing β).runFrom s = (.ok result, s') ↔
      ∃ elements f j, c.resolve t names = .ok elements ∧ terminalField? elements = some f ∧
        (operand f).runFrom s = (.ok j, s') ∧ result = build elements f j := by
  simp only [Drawing.runFrom_bind_eq_ok, runFrom_resolveQuery_eq_ok]
  constructor
  · rintro ⟨elements, _, ⟨hresolve, rfl⟩, hrest⟩
    cases hfield : terminalField? elements with
    | none =>
      rw [hfield] at hrest
      simp [refuseQuery] at hrest
    | some f =>
      rw [hfield] at hrest
      obtain ⟨j, u, hoperand, hpure⟩ := Drawing.runFrom_bind_eq_ok.mp hrest
      simp only [Drawing.runFrom_pure, Prod.mk.injEq, Except.ok.injEq] at hpure
      obtain ⟨rfl, rfl⟩ := hpure
      exact ⟨elements, f, j, hresolve, hfield, hoperand, rfl⟩
  · rintro ⟨elements, f, j, hresolve, hfield, hoperand, rfl⟩
    refine ⟨elements, s, ⟨hresolve, rfl⟩, ?_⟩
    rw [hfield]
    exact Drawing.runFrom_bind_eq_ok.mpr ⟨j, s', hoperand, rfl⟩

/-- The steps of one operation, behind its operator. -/
theorem compileOperation_of_segments {key first : String} {more : List String}
    (hop : op ∈ updateOperators) (hsegments : keywordSegments key = op :: first :: more) :
    compileOperation c t key v = (do
      let v' ← operationValue op key v
      let elements ← c.resolveQuery t (dropEscape (comparisonOf (first :: more)).2)
      match terminalField? elements with
      | none => refuseQuery (.noField key)
      | some f =>
        let operand ← f.updateOperand (nativeOperator op) (comparisonOf (first :: more)).1 v'
        return operationBody (nativeOperator op) elements
          (underComparison (comparisonOf (first :: more)).1 operand)) := by
  have hcontains : updateOperators.contains op = true := by simpa using hop
  unfold compileOperation
  rw [hsegments]
  simp only [hcontains, Bool.not_true, Bool.false_eq_true, ↓reduceIte]
  rfl

/-- The steps of one operation. -/
theorem compileOperation_eq (hop : op ∈ updateOperators) :
    compileOperation c t (op ++ "__" ++ path) v = (do
      let v' ← operationValue op (op ++ "__" ++ path) v
      let elements ← c.resolveQuery t (dropEscape (comparisonOf (keywordSegments path)).2)
      match terminalField? elements with
      | none => refuseQuery (.noField (op ++ "__" ++ path))
      | some f =>
        let operand ←
          f.updateOperand (nativeOperator op) (comparisonOf (keywordSegments path)).1 v'
        return operationBody (nativeOperator op) elements
          (underComparison (comparisonOf (keywordSegments path)).1 operand)) := by
  obtain ⟨first, more, hsegments⟩ := List.exists_cons_of_ne_nil (keywordSegments_ne_nil path)
  rw [hsegments]
  exact compileOperation_of_segments hop (by rw [keywordSegments_operation hop, hsegments])

/-- **What one operation renders**: its path without a comparison at the end is resolved, and the
last field of the path makes the operand. -/
theorem compileOperation_eq_ok (hop : op ∈ updateOperators) {result : String × Object} :
    (compileOperation c t (op ++ "__" ++ path) v).runFrom s = (.ok result, s') ↔
      ∃ v' u elements f operand,
        (operationValue op (op ++ "__" ++ path) v).runFrom s = (.ok v', u) ∧
        c.resolve t (dropEscape (comparisonOf (keywordSegments path)).2) = .ok elements ∧
        terminalField? elements = some f ∧
        (f.updateOperand (nativeOperator op) (comparisonOf (keywordSegments path)).1 v').runFrom u =
          (.ok operand, s') ∧
        result = operationBody (nativeOperator op) elements
          (underComparison (comparisonOf (keywordSegments path)).1 operand) := by
  rw [compileOperation_eq hop, Drawing.runFrom_bind_eq_ok]
  simp only [runFrom_lastField_eq_ok]
  constructor
  · rintro ⟨v', u, hvalue, elements, f, operand, hrest⟩
    exact ⟨v', u, elements, f, operand, hvalue, hrest⟩
  · rintro ⟨v', u, elements, f, operand, hvalue, hrest⟩
    exact ⟨v', u, hvalue, elements, f, operand, hrest⟩

/-- The update of one operation has its operator and its body. -/
theorem compileUpdate_single_eq_ok (hop : op ∈ updateOperators) {update : Object} :
    (compileUpdate c t [(op ++ "__" ++ path, v)]).runFrom s = (.ok update, s') ↔
      ∃ operator body,
        (compileOperation c t (op ++ "__" ++ path) v).runFrom s = (.ok (operator, body), s') ∧
        update = [(operator, .object body)] := by
  simp only [compileUpdate, compileOperations, if_neg (ne_rawKey_operation hop path),
    Drawing.runFrom_bind_eq_ok]
  constructor
  · rintro ⟨⟨operator, body⟩, u, hrun, hpure⟩
    simp only [Drawing.runFrom_pure, Prod.mk.injEq, Except.ok.injEq] at hpure
    obtain ⟨rfl, rfl⟩ := hpure
    exact ⟨operator, body, hrun, rfl⟩
  · rintro ⟨operator, body, hrun, rfl⟩
    exact ⟨(operator, body), s', hrun, rfl⟩

end

/-! ### What an operation should write -/

/-- An operation removes items from a list, those that meet a condition where there is one. -/
def IsRemoval (op : String) : Prop :=
  op = "pull" ∨ op = "pull_all"

/-- An operation inserts into a list, at a position where the path ends in one. -/
def IsInsertion (op : String) : Prop :=
  op = "push" ∨ op = "push_all"

/-- The operator of an operation in update documents; several insertions are one. -/
def updateOperator (op : String) : String :=
  "$" ++ if op = "push_all" then "push" else nativeOperator op

/-- An operand as its operator expects it: several items are listed under `$each`. -/
def listed (op : String) (operand : Json) : Json :=
  if op = "push_all" then .single "$each" (asItems operand)
  else if op = "add_to_set" then
    match operand with
    | .array _ => .single "$each" operand
    | _ => operand
  else operand

/-- What an operation writes into a field: the operand that the field makes of the value, on its
own and not under a comparison. -/
def Field.writtenValue (f : Field) (op key : String) (v : Value) : Drawing Json := do
  let v ← operationValue op key v
  let operand ← f.updateOperand (nativeOperator op) none v
  return listed op operand

/-- An update writes the value of one operation at the path of some elements and nothing else. -/
def WritesWhole (elements : List PathElement) (op key : String) (v : Value) (s s' : Supply)
    (update : Object) : Prop :=
  ∃ f operand, terminalField? elements = some f ∧
    (f.writtenValue op key v).runFrom s = (.ok operand, s') ∧
    update = [(updateOperator op, .object [(storagePath elements, operand)])]

/-- The last segment of a path is spelled like a comparison, below another segment. -/
def EndsInComparison (segments : List String) : Prop :=
  1 < segments.length ∧ ∃ last ∈ segments.getLast?, last ∈ comparisonOperators

/-- The last stored name of a path is a number. -/
def EndsInNumber (elements : List PathElement) : Prop :=
  ∃ last ∈ (elements.map PathElement.storageName).getLast?, isIndex last = true

/-! ### Bodies -/

/-- Only removals have an operator of removals. -/
theorem beginsWith_pull {op : String} (hop : op ∈ updateOperators) (h : ¬ IsRemoval op) :
    beginsWith "pull" (nativeOperator op) = false := by
  have hall : ∀ op ∈ updateOperators, op ≠ "pull" → op ≠ "pull_all" →
      beginsWith "pull" (nativeOperator op) = false := by
    decide
  exact hall op hop (fun heq => h (.inl heq)) fun heq => h (.inr heq)

/-- Three operations are rendered in their own way, and are known by their operators. -/
theorem nativeOperator_eq_iff {op : String} (hop : op ∈ updateOperators) :
    (nativeOperator op = "addToSet" ↔ op = "add_to_set") ∧
      (nativeOperator op = "push" ↔ op = "push") ∧
      (nativeOperator op = "pushAll" ↔ op = "push_all") := by
  have hall : ∀ op ∈ updateOperators, (nativeOperator op = "addToSet" ↔ op = "add_to_set") ∧
      (nativeOperator op = "push" ↔ op = "push") ∧
      (nativeOperator op = "pushAll" ↔ op = "push_all") := by
    decide
  exact hall op hop

section

variable {op : String} {elements : List PathElement} {operand : Json}

/-- The body of an insertion. -/
theorem operationBody_insertion (hinsertion : IsInsertion op) :
    operationBody (nativeOperator op) elements operand =
      pushInto (nativeOperator op) (elements.map PathElement.storageName) operand := by
  have hpull : beginsWith "pull" "push" = false ∧ beginsWith "pull" "pushAll" = false := by decide
  rcases hinsertion with rfl | rfl
  · simp [operationBody, nativeOperator, hpull]
  · simp [operationBody, nativeOperator, hpull]

/-- An insertion behind a path that ends in a number goes to the position of that number. -/
theorem operationBody_position (hinsertion : IsInsertion op) (hnumber : EndsInNumber elements)
    (operand : Json) : ∃ j, operationBody (nativeOperator op) elements operand =
      ("$push", [(dotted (elements.map PathElement.storageName).dropLast, j)]) := by
  obtain ⟨last, hlast, hindex⟩ := hnumber
  rw [operationBody_insertion hinsertion]
  simp only [pushInto, Option.mem_def.mp hlast, hindex, ↓reduceIte, Prod.mk.injEq, List.cons.injEq,
    and_true, true_and]
  exact ⟨_, rfl⟩

/-- Other insertions go to the end. -/
theorem operationBody_end (hinsertion : IsInsertion op) (hnumber : ¬ EndsInNumber elements) :
    operationBody (nativeOperator op) elements operand =
      ("$push", [(storagePath elements, listed op operand)]) := by
  have hwhole : pushInto.whole (nativeOperator op) operand = listed op operand := by
    rcases hinsertion with rfl | rfl <;> rfl
  rw [operationBody_insertion hinsertion, pushInto, hwhole]
  split
  · rename_i last hlast
    have hindex : isIndex last = false :=
      Bool.eq_false_iff.mpr fun hindex => hnumber ⟨last, hlast, hindex⟩
    simp [hindex, storagePath]
  · rfl

/-- **An operation that is no removal writes at the path of its elements**, unless it inserts at a
position. -/
theorem operationBody_eq (hop : op ∈ updateOperators) (hremoval : ¬ IsRemoval op)
    (hplace : ¬ (IsInsertion op ∧ EndsInNumber elements)) :
    operationBody (nativeOperator op) elements operand =
      (updateOperator op, [(storagePath elements, listed op operand)]) := by
  by_cases hinsertion : IsInsertion op
  · rw [operationBody_end hinsertion fun hnumber => hplace ⟨hinsertion, hnumber⟩]
    rcases hinsertion with rfl | rfl <;> rfl
  · have hall : op ≠ "push_all" := fun heq => hinsertion (.inr heq)
    obtain ⟨hset, hpush, hpushAll⟩ := nativeOperator_eq_iff hop
    have hnative : ¬ (nativeOperator op = "push" ∨ nativeOperator op = "pushAll") := by
      rwa [hpush, hpushAll]
    simp only [operationBody, beginsWith_pull hop hremoval, Bool.false_and, Bool.false_eq_true,
      ↓reduceIte, if_neg hnative, hset, updateOperator, listed, if_neg hall, storagePath]
    split
    · rename_i heq
      subst heq
      rfl
    · rfl

end

/-! ### Shorter paths -/

/-- The path of the front segments is no longer than the whole path. -/
theorem length_dotted_dropLast_le (segments : List String) :
    (dotted segments.dropLast).length ≤ (dotted segments).length := by
  rcases List.eq_nil_or_concat segments with rfl | ⟨front, last, rfl⟩
  · simp
  · rw [List.concat_eq_append, List.dropLast_concat]
    cases front with
    | nil => simp [dotted, joinStrings, joinWith]
    | cons s front =>
      rw [dotted_append (List.cons_ne_nil s front) (by simp)]
      simp only [String.length_append]
      omega

/-- The path of several segments is longer than the path of those before the last one. -/
theorem length_dotted_lt {front : List String} (hfront : front ≠ []) (last : String) :
    (dotted front).length < (dotted (front ++ [last])).length := by
  have hpoint : ".".length = 1 := by decide
  rw [dotted_append hfront (by simp)]
  simp only [String.length_append, hpoint]
  omega

/-- A path that ends in a number is not the path of the segments before it. -/
theorem dotted_dropLast_ne {segments : List String} {last : String}
    (hlast : segments.getLast? = some last) (hindex : isIndex last = true) :
    dotted segments.dropLast ≠ dotted segments := by
  obtain ⟨front, rfl⟩ := List.getLast?_eq_some_iff.mp hlast
  rw [List.dropLast_concat]
  intro heq
  cases front with
  | nil =>
    rw [List.nil_append, dotted_singleton] at heq
    rw [← heq] at hindex
    exact absurd hindex (by decide)
  | cons s front =>
    have := length_dotted_lt (List.cons_ne_nil s front) last
    rw [← heq] at this
    omega

/-! ### Operations and their paths -/

/-- A comparison at the end of a path is taken off. -/
theorem comparisonOf_of_ends {segments : List String} (h : EndsInComparison segments) :
    ∃ front last, front ≠ [] ∧ segments = front ++ [last] ∧
      comparisonOf segments = (some last, front) := by
  obtain ⟨hlength, last, hlast, hmem⟩ := h
  obtain ⟨front, rfl⟩ := List.getLast?_eq_some_iff.mp (Option.mem_def.mp hlast)
  refine ⟨front, last, ?_, rfl, ?_⟩
  · rintro rfl
    simp at hlength
  · have hcontains : comparisonOperators.contains last = true := by simpa using hmem
    have hdrop : dropLastIf comparisonOperators.contains (front ++ [last]) =
        some (last, front) := by
      rw [dropLastIf, Option.mem_def.mp hlast]
      simp only
      rw [if_pos ⟨hlength, hcontains⟩, List.dropLast_concat]
    rw [comparisonOf, hdrop]

/-- Any other path is left as it is. -/
theorem comparisonOf_of_not_ends {segments : List String} (h : ¬ EndsInComparison segments) :
    comparisonOf segments = (none, segments) := by
  have hdrop : dropLastIf comparisonOperators.contains segments = none := by
    unfold dropLastIf
    split
    · rename_i last hlast
      refine if_neg fun hends => h ⟨hends.1, last, hlast, ?_⟩
      simpa using hends.2
    · rfl
  rw [comparisonOf, hdrop]

/-- Where no segment is empty, none is taken for an escape. -/
theorem dropEscape_eq_self {segments : List String} (h : "" ∉ segments) :
    dropEscape segments = segments := by
  have hdrop : dropLastIf String.isEmpty segments = none := by
    unfold dropLastIf
    split
    · rename_i last hlast
      refine if_neg fun hends => h ?_
      have hempty : last = "" := by simpa using hends.2
      exact hempty ▸ List.mem_of_getLast? hlast
    · rfl
  rw [dropEscape, hdrop]

/-- An operation that is no removal has one path, no longer than the one of its elements. -/
theorem operationBody_single {op : String} (hop : op ∈ updateOperators) (hremoval : ¬ IsRemoval op)
    (elements : List PathElement) (operand : Json) :
    ∃ operator key j, operationBody (nativeOperator op) elements operand = (operator, [(key, j)]) ∧
      key.length ≤ (storagePath elements).length := by
  by_cases hplace : IsInsertion op ∧ EndsInNumber elements
  · obtain ⟨j, hbody⟩ := operationBody_position hplace.1 hplace.2 operand
    exact ⟨_, _, j, hbody, length_dotted_dropLast_le _⟩
  · exact ⟨_, _, _, operationBody_eq hop hremoval hplace, Nat.le_refl _⟩

/-- **An operation that is no removal writes its value at its path and nowhere else, exactly when**
the path does not end in the name of a comparison, and an insertion not in a stored name that is a
number. -/
theorem compileUpdate_writes_iff {c : Catalog} {t : DocumentType} {op path : String} {v : Value}
    {elements : List PathElement} {s s' : Supply} {update : Object} (hop : op ∈ updateOperators)
    (hremoval : ¬ IsRemoval op) (hsegments : "" ∉ keywordSegments path)
    (helements : c.resolve t (keywordSegments path) = .ok elements)
    (hrun : (compileUpdate c t [(op ++ "__" ++ path, v)]).runFrom s = (.ok update, s')) :
    WritesWhole elements op (op ++ "__" ++ path) v s s' update ↔
      ¬ EndsInComparison (keywordSegments path) ∧ ¬ (IsInsertion op ∧ EndsInNumber elements) := by
  obtain ⟨operator, body, hcompile, rfl⟩ := (compileUpdate_single_eq_ok hop).mp hrun
  obtain ⟨v', u, es, f, operand, hvalue, hresolve, hfield, hoperand, hbody⟩ :=
    (compileOperation_eq_ok hop).mp hcompile
  by_cases hends : EndsInComparison (keywordSegments path)
  · refine iff_of_false ?_ fun h => h.1 hends
    obtain ⟨front, last, hfront, hpath, hcomparison⟩ := comparisonOf_of_ends hends
    rw [hpath, List.mem_append, not_or] at hsegments
    rw [hcomparison, dropEscape_eq_self hsegments.1] at hresolve
    rw [hpath] at helements
    obtain ⟨es', e, rfl, hes'⟩ := Catalog.resolve_concat hfront helements
    obtain rfl : es' = es := Except.ok.inj (hes'.symm.trans hresolve)
    rintro ⟨f', operand', -, -, hwrites⟩
    obtain ⟨operator', key, j, hsingle, hlength⟩ := operationBody_single hop hremoval es'
      (underComparison (comparisonOf (keywordSegments path)).1 operand)
    obtain ⟨rfl, rfl⟩ := Prod.mk.inj (hbody.trans hsingle)
    obtain ⟨-, hkey, -⟩ : operator = updateOperator op ∧ key = storagePath (es' ++ [e]) ∧
        j = operand' := by simpa using hwrites
    have hnames : es'.map PathElement.storageName ≠ [] := by
      simpa using Catalog.resolve_ne_nil hfront hes'
    have hlonger := length_dotted_lt hnames e.storageName
    rw [hkey, storagePath, storagePath, List.map_append] at hlength
    exact absurd hlength (by simpa using hlonger)
  · rw [comparisonOf_of_not_ends hends, dropEscape_eq_self hsegments, helements] at hresolve
    obtain rfl := Except.ok.inj hresolve
    rw [comparisonOf_of_not_ends hends] at hoperand hbody
    by_cases hplace : IsInsertion op ∧ EndsInNumber elements
    · refine iff_of_false ?_ fun h => h.2 hplace
      rintro ⟨f', operand', -, -, hwrites⟩
      obtain ⟨j, hposition⟩ := operationBody_position hplace.1 hplace.2
        (underComparison none operand)
      obtain ⟨last, hlast, hindex⟩ := hplace.2
      obtain ⟨rfl, rfl⟩ := Prod.mk.inj (hbody.trans hposition)
      obtain ⟨-, hkey, -⟩ : "$push" = updateOperator op ∧
          dotted (elements.map PathElement.storageName).dropLast = storagePath elements ∧
          j = operand' := by simpa using hwrites
      exact dotted_dropLast_ne (Option.mem_def.mp hlast) hindex hkey
    · refine iff_of_true ⟨f, listed op operand, hfield, ?_, ?_⟩ ⟨hends, hplace⟩
      · simp only [Field.writtenValue, Drawing.runFrom_bind_eq_ok]
        exact ⟨v', u, hvalue, operand, s', hoperand, rfl⟩
      · rw [operationBody_eq hop hremoval hplace] at hbody
        obtain ⟨rfl, rfl⟩ := Prod.mk.inj hbody
        rfl

/-! ### Boxes -/

/-- The marks on a box, which are stored under a short name. -/
def marksField : Field :=
  { Field.list "marks" (.scalar .int) with storageName := "m" }

/-- The dimensions of a box, with a size and marks. -/
def dimensionsType : DocumentType where
  name := "Dimensions"
  className := "Dimensions"
  collection := none
  fields := [.ofKind "size" (.scalar .int), marksField]
  primaryKey := none
  isDynamic := false
  allowsInheritance := false
  superclass := none

/-- Boxes have dimensions, and things in them, which are stored under a number. -/
def boxType : DocumentType where
  name := "Box"
  className := "Box"
  collection := some "boxes"
  fields := [{ Field.ofKind "id" (.scalar .objectId) with storageName := idKey },
    .ofKind "dims" (.embedded dimensionsType),
    { Field.list "things" (.scalar .int) with storageName := "0" }]
  primaryKey := some "id"
  isDynamic := false
  allowsInheritance := false
  superclass := none

theorem boxType_built : boxType.Built := by
  let plain : Declaration := (Declaration.document "Box").inCollection "boxes"
  exact ⟨(plain.withField (.ofKind "dims" (.embedded dimensionsType))).withField
    { Field.list "things" (.scalar .int) with storageName := "0" }, rfl⟩

/-- The path to the marks on a box. -/
def dimsMarks : List PathElement :=
  [.field (.ofKind "dims" (.embedded dimensionsType)), .field marksField]

theorem resolve_dimsMarks :
    Catalog.empty.resolve boxType (keywordSegments "dims__marks") = .ok dimsMarks := by
  have hsegments : keywordSegments "dims__marks" = ["dims", "marks"] := rfl
  rw [hsegments]
  rfl

/-- The path to the marks does not end in a comparison. -/
theorem dimsMarks_not_endsInComparison : ¬ EndsInComparison (keywordSegments "dims__marks") := by
  have hsegments : keywordSegments "dims__marks" = ["dims", "marks"] := rfl
  rw [hsegments]
  rintro ⟨-, last, hlast, hmem⟩
  obtain rfl : "marks" = last := by simpa using hlast
  exact absurd hmem (by decide)

theorem compileUpdate_dimsMarks :
    (compileUpdate .empty boxType [("push" ++ "__" ++ "dims__marks", .int 7)]).runFrom .fresh =
      (.ok [("$push", .object [("dims.m", .ofInt64 7)])], .fresh) := by
  have hpush : "push" ∈ updateOperators := by decide
  have hcomparison := comparisonOf_of_not_ends dimsMarks_not_endsInComparison
  have hoperand : (marksField.updateOperand (nativeOperator "push") none (.int 7)).runFrom .fresh =
      (.ok (.ofInt64 7), .fresh) := rfl
  have hcompile : (compileOperation .empty boxType ("push" ++ "__" ++ "dims__marks")
      (.int 7)).runFrom .fresh = (.ok ("$push", [("dims.m", .ofInt64 7)]), .fresh) := by
    refine (compileOperation_eq_ok hpush).mpr ⟨.int 7, .fresh, dimsMarks, marksField, .ofInt64 7,
      rfl, ?_, rfl, ?_, ?_⟩
    · rw [hcomparison, dropEscape_eq_self (by decide)]
      exact resolve_dimsMarks
    · rw [hcomparison]
      exact hoperand
    · rw [hcomparison]
      rfl
  exact (compileUpdate_single_eq_ok hpush).mpr ⟨_, _, hcompile, rfl⟩

theorem compileUpdate_writes_iff_dimsMarks :
    "push" ∈ updateOperators ∧ ¬ IsRemoval "push" ∧ "" ∉ keywordSegments "dims__marks" ∧
      Catalog.empty.resolve boxType (keywordSegments "dims__marks") = .ok dimsMarks ∧
      ∃ update, (compileUpdate .empty boxType [("push" ++ "__" ++ "dims__marks", .int 7)]).runFrom
        .fresh = (.ok update, .fresh) ∧
      WritesWhole dimsMarks "push" ("push" ++ "__" ++ "dims__marks") (.int 7) .fresh .fresh
        update := by
  have hpush : "push" ∈ updateOperators := by decide
  have hremoval : ¬ IsRemoval "push" := by simp [IsRemoval]
  have hsegments : "" ∉ keywordSegments "dims__marks" := by decide
  have hnumber : ¬ EndsInNumber dimsMarks := by
    rintro ⟨last, hlast, hindex⟩
    obtain rfl : "m" = last := by
      simpa [dimsMarks, PathElement.storageName, marksField] using hlast
    exact absurd hindex (by decide)
  exact ⟨hpush, hremoval, hsegments, resolve_dimsMarks, _, compileUpdate_dimsMarks,
    (compileUpdate_writes_iff hpush hremoval hsegments resolve_dimsMarks
      compileUpdate_dimsMarks).mpr ⟨dimsMarks_not_endsInComparison, fun h => hnumber h.2⟩⟩

/-- The size of a box is not written: a comparison takes the place of the dimensions. Nor is a thing
put into a box: it goes to a path without a name. -/
theorem boxUpdates_not_writesWhole : boxType.Built ∧
    ("" ∉ keywordSegments "dims__size" ∧ ∃ elements update,
      Catalog.empty.resolve boxType (keywordSegments "dims__size") = .ok elements ∧
      (compileUpdate .empty boxType [("set__dims__size", .int 3)]).runFrom .fresh =
        (.ok update, .fresh) ∧
      ¬ WritesWhole elements "set" "set__dims__size" (.int 3) .fresh .fresh update) ∧
    keywordSegments "things" = ["things"] ∧ ∃ elements update,
      Catalog.empty.resolve boxType (keywordSegments "things") = .ok elements ∧
      (compileUpdate .empty boxType [("push__things", .int 3)]).runFrom .fresh =
        (.ok update, .fresh) ∧
      ¬ WritesWhole elements "push" "push__things" (.int 3) .fresh .fresh update := by
  have hsize : keywordSegments "dims__size" = ["dims", "size"] := rfl
  have hthings : keywordSegments "things" = ["things"] := rfl
  have hset : (compileUpdate .empty boxType [("set__dims__size", .int 3)]).runFrom .fresh =
      (.ok [("$set", .object [("dims", .object [("$size", .ofInt64 3)])])], .fresh) := rfl
  have hpush : (compileUpdate .empty boxType [("push__things", .int 3)]).runFrom .fresh =
      (.ok [("$push", .object [("", .object [("$each", .array [.ofInt64 3]),
        ("$position", .ofNat 0)])])], .fresh) := rfl
  rw [hsize, hthings]
  refine ⟨boxType_built, ⟨by decide, _, _, rfl, hset, ?_⟩, rfl, _, _, rfl, hpush, ?_⟩
  · rintro ⟨f, operand, -, -, hupdate⟩
    simp only [List.cons.injEq, Prod.mk.injEq, Json.object.injEq] at hupdate
    exact absurd hupdate.1.2.1.1 (by decide)
  · rintro ⟨f, operand, -, -, hupdate⟩
    simp only [List.cons.injEq, Prod.mk.injEq, Json.object.injEq] at hupdate
    exact absurd hupdate.1.2.1.1 (by decide)

end DocumentMapper
