import DocumentMapper.Proofs.ConditionLists
import DocumentMapper.Proofs.FilterVerdicts
import DocumentMapper.Proofs.WrittenPaths

/-!
# Conditions on one field

A keyword that is a name, with or without an operator behind it, leads to one field. A condition
under it is compiled to a filter with one entry, whose path is the storage name of the field and
whose condition is the operand that the field makes of the value, under the operator.

An entry of a filter asks for a value, unless the condition is an object of operators.

## Main results

* `IsName.read`, `TakesOperator.read`: the parts of a name, and of a name with an operator;
* `compile_keyword_eq_ok`: the filter of a condition;
* `compile_field_eq_ok`: the filter of a condition on one field;
* `meets_single`: how a filter with one entry is evaluated.
-/

namespace DocumentMapper

open Text

variable {c : Catalog} {t : DocumentType} {f : Field} {name key op : String} {v : Value}
  {σ σ' : Supply} {j : Json}

/-! ### Keywords that are one name -/

/-- A text without a double underscore is one segment. -/
theorem splitAtUnderscores_of_not_infix {cs : List Char} (h : ¬ ['_', '_'] <:+: cs) :
    splitAtUnderscores cs = [cs] := by
  fun_induction splitAtUnderscores cs with
  | case1 => rfl
  | case2 cs ih => exact absurd (List.prefix_append ['_', '_'] cs).isInfix h
  | case3 c cs hne ih =>
    rw [ih fun hbelow => h (hbelow.trans (List.suffix_cons c cs).isInfix)]
    rfl

/-- Whether a keyword is one name: no number, and without a double underscore. -/
def IsName (key : String) : Prop :=
  ¬ ['_', '_'] <:+: key.toList ∧ isIndex key = false

theorem IsName.keywordSegments (h : IsName key) : keywordSegments key = [key] := by
  rw [Text.keywordSegments, splitAtUnderscores_of_not_infix h.1]
  simp

theorem IsName.ne_rawKey (h : IsName key) : key ≠ rawKey := by
  rintro rfl
  exact h.1 ⟨[], "raw__".toList, rfl⟩

/-- A name by itself is no operator, however it is spelled. -/
theorem IsName.read (h : IsName key) : Keyword.read key = ⟨[key], none, false, []⟩ := by
  have hlast : ∀ p : String → Bool, dropLastIf p [key] = none := fun p => by simp [dropLastIf]
  simp [Keyword.read, h.keywordSegments, h.2, hlast, dropEscape, List.zipIdx]

/-! ### Names with an operator -/

/-- Whether an operator can be read behind a name, which must not end in half of a separator. -/
structure TakesOperator (name : String) : Prop where
  isName : IsName name
  last : name.toList.getLast? ≠ some '_'

theorem TakesOperator.keywordSegments (h : TakesOperator name) (hop : IsName op) :
    keywordSegments (name ++ "__" ++ op) = [name, op] := by
  have hsplit := splitAtUnderscores_of_not_infix h.isName.1
  have htext : (name ++ "__" ++ op).toList = name.toList ++ '_' :: '_' :: op.toList := by simp
  rw [Text.keywordSegments, htext, splitAtUnderscores_append hsplit h.last,
    splitAtUnderscores_of_not_infix hop.1]
  simp

theorem TakesOperator.ne_rawKey (h : TakesOperator name) (hop : IsName op) :
    name ++ "__" ++ op ≠ rawKey := by
  intro hraw
  have hsegments := h.keywordSegments hop
  rw [hraw] at hsegments
  cases congrArg List.length hsegments

/-- The operator is what stands behind the name. -/
theorem TakesOperator.read (h : TakesOperator name) (hop : IsName op)
    (hmatch : isMatchOperator op = true) :
    Keyword.read (name ++ "__" ++ op) = ⟨[name], some op, false, []⟩ := by
  have hlast : ∀ p : String → Bool, dropLastIf p [name] = none := fun p => by simp [dropLastIf]
  have hoperator : dropLastIf isMatchOperator [name, op] = some (op, [name]) := by
    simp [dropLastIf, hmatch]
  simp [Keyword.read, h.keywordSegments hop, h.isName.2, hop.2, hoperator, hlast, dropEscape,
    List.zipIdx]

/-! ### Conditions on one field -/

/-- The path that a condition on a field compares. Into a reference to any type it goes on to the
part that the operand is compared with. -/
def Field.comparedPath (f : Field) (operand : Json) : String :=
  match f.kind with
  | .genericReference => f.storageName ++ genericSuffix operand
  | _ => f.storageName

/-- An operand as the condition that has it under its operator. -/
def underOperator (op : Option String) (operand : Json) : Json :=
  match op with
  | some op => if isPassedThrough op then operand else .single ("$" ++ op) operand
  | none => operand

/-- The names of a path with the part of a generic reference that a condition compares. -/
def Field.comparedNames (f : Field) (condition : Json) (names : List String) : List String :=
  match f.kind with
  | .genericReference => suffixLast (genericSuffix condition) names
  | _ => names

/-- A condition, or its negation. -/
def negatedIf (isNegated : Bool) (condition : Json) : Json :=
  if isNegated then .single "$not" condition else condition

/-- **The filter of a condition**: the names of its keyword are resolved, the last field makes the
operand, and the filter has the operand under the operator of the keyword, at the path of the names
with the numbers put back. -/
theorem compile_keyword_eq_ok {keyword : Keyword} (hraw : key ≠ rawKey)
    (hread : Keyword.read key = keyword) {filter : Object} :
    (compile c t [(key, v)]).runFrom σ = (.ok filter, σ') ↔
      ∃ elements f j, c.resolve t keyword.names = .ok elements ∧
        terminalField? elements = some f ∧
        (compileOperand f keyword.operator v fun g => v.itemMatch c g).runFrom σ = (.ok j, σ') ∧
        filter = [(dotted (reinsert keyword.indices
            (f.comparedNames j (elements.map PathElement.storageName))),
          negatedIf keyword.isNegated (underOperator keyword.operator j))] := by
  subst hread
  have hcondition : ∀ {path condition},
      (compileCondition c t key v fun g => v.itemMatch c g).runFrom σ =
          (.ok (path, condition), σ') ↔
        ∃ elements f j, c.resolve t (Keyword.read key).names = .ok elements ∧
          terminalField? elements = some f ∧
          (compileOperand f (Keyword.read key).operator v fun g => v.itemMatch c g).runFrom σ =
            (.ok j, σ') ∧
          (path, condition) = (dotted (reinsert (Keyword.read key).indices
              (f.comparedNames j (elements.map PathElement.storageName))),
            negatedIf (Keyword.read key).isNegated (underOperator (Keyword.read key).operator j)) :=
    runFrom_lastField_eq_ok
  rw [compile_single_eq_ok hraw]
  simp only [hcondition]
  constructor
  · rintro ⟨path, condition, ⟨elements, f, j, hresolve, hfield, hoperand, heq⟩, rfl⟩
    exact ⟨elements, f, j, hresolve, hfield, hoperand, by rw [heq]⟩
  · rintro ⟨elements, f, j, hresolve, hfield, hoperand, rfl⟩
    exact ⟨_, _, ⟨elements, f, j, hresolve, hfield, hoperand, rfl⟩, rfl⟩

/-- A declared attribute names its field. -/
theorem Catalog.fieldOn_of_field? (c : Catalog) (hf : t.field? (t.attributeOf name) = some f) :
    c.fieldOn t name = .ok f := by
  simp only [Catalog.fieldOn, hf, Option.some_or]
  rfl

/-- The path of one attribute is its field. -/
theorem Catalog.resolve_name (c : Catalog) (hf : t.field? (t.attributeOf name) = some f) :
    c.resolve t [name] = .ok [.field f] := by
  rw [Catalog.resolve, c.fieldOn_of_field? hf]
  rfl

/-- **A condition on one field is a filter with one entry.** -/
theorem compile_field_eq_ok {op : Option String} (hraw : key ≠ rawKey)
    (hread : Keyword.read key = ⟨[name], op, false, []⟩)
    (hf : t.field? (t.attributeOf name) = some f) {filter : Object} :
    (compile c t [(key, v)]).runFrom σ = (.ok filter, σ') ↔
      ∃ j, (compileOperand f op v fun g => v.itemMatch c g).runFrom σ = (.ok j, σ') ∧
        filter = [(f.comparedPath j, underOperator op j)] := by
  have hpath : ∀ j, dotted (f.comparedNames j [f.storageName]) = f.comparedPath j := by
    intro j
    unfold Field.comparedNames Field.comparedPath
    cases f.kind <;> exact dotted_singleton _
  rw [compile_keyword_eq_ok hraw hread]
  constructor
  · rintro ⟨elements, g, j, hresolve, hfield, hoperand, rfl⟩
    obtain rfl := Except.ok.inj ((c.resolve_name hf).symm.trans hresolve)
    obtain rfl := Option.some.inj hfield
    exact ⟨j, hoperand, by rw [← hpath]; rfl⟩
  · rintro ⟨j, hoperand, rfl⟩
    exact ⟨_, f, j, c.resolve_name hf, rfl, hoperand, by rw [← hpath]; rfl⟩

/-! ### Data and operators -/

/-- Whether a condition is an object of operators. -/
def Json.IsOperators (j : Json) : Prop :=
  ∃ entries, j = .object entries ∧ isOperatorMap entries = true

/-- What is no object is data. -/
theorem Json.not_isOperators (h : j.asObject? = none) : ¬ j.IsOperators := by
  rintro ⟨entries, rfl, -⟩
  cases h

/-- The names under which a filter has other filters. -/
def connectives : List String := ["$and", "$or", "$nor"]

/-- A name that does not begin with a dollar sign is no connective. -/
theorem not_mem_connectives (h : beginsWith "$" name = false) : name ∉ connectives := by
  intro hmem
  have hdollar : ∀ s ∈ connectives, beginsWith "$" s = true := by decide
  rw [hdollar name hmem] at h
  cases h

/-- A condition that is no object of operators asks for a value. -/
theorem conditionHolds_of_data (h : ¬ j.IsOperators) (values : List Json) (depth : Nat) :
    conditionHolds j values depth = .ok (equalsAny values j) := by
  cases j with
  | object entries =>
    rw [conditionHolds, if_neg fun hoperators => h ⟨entries, rfl, hoperators⟩]
    rfl
  | _ => rfl

/-- An entry under a name that is no operator is a condition on what stands there. -/
theorem entryHolds_of_name (hname : name ∉ connectives) (r : Object) (depth : Nat) :
    entryHolds name j r depth =
      if beginsWith "$" name then throw (.topLevelOperator name)
      else conditionHolds j (r.lookup name) depth := by
  unfold entryHolds
  split
  · exact absurd (by decide) hname
  · exact absurd (by decide) hname
  · exact absurd (by decide) hname
  · rfl

theorem meets_single_iff (hname : name ∉ connectives) {r : Object} :
    r.meets [(name, j)] = .ok true ↔
      beginsWith "$" name = false ∧ conditionHolds j (r.lookup name) 0 = .ok true := by
  rw [Object.meets_eq, entriesHold_eq_true_iff, List.forall_mem_singleton, entryHolds_of_name hname]
  split
  · rename_i hdollar
    simp [hdollar]
  · rename_i hdollar
    simp [hdollar]

/-- **A filter with one entry is the condition on what stands at the path.** -/
theorem meets_single (hname : beginsWith "$" name = false) (r : Object) :
    r.meets [(name, j)] = conditionHolds j (r.lookup name) 0 := by
  rw [Object.meets_eq, entriesHold_cons, entryHolds_of_name (not_mem_connectives hname), hname]
  simp only [Bool.false_eq_true, ↓reduceIte, entriesHold]
  cases conditionHolds j (r.lookup name) 0 with
  | error cause => rfl
  | ok b => cases b <;> rfl

/-- Values meet an object with one operator when they meet the operator. -/
theorem conditionHolds_single (hop : beginsWith "$" op = true) (values : List Json) (depth : Nat) :
    conditionHolds (.single op j) values depth =
      operatorHolds op j (ignoresCase [(op, j)]) values depth := by
  rw [Json.single, conditionHolds, if_pos (by simp [isOperatorMap, hop]), operatorsHold_cons]
  cases operatorHolds op j (ignoresCase [(op, j)]) values depth with
  | error cause => rfl
  | ok b => cases b <;> rfl

end DocumentMapper
