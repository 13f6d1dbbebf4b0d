import DocumentMapper.Proofs.EscapedNames
import DocumentMapper.Proofs.LiteralPatterns
import DocumentMapper.Proofs.Segments

/-!
# Conditions on texts

An operator that compares texts is compiled to a pattern, and the operand in it is escaped. What the
pattern finds is therefore told by the texts alone: whether one contains the other, begins or ends
with it, or is the same. In front of an operator stands a negation like any other name, and what it
asks for is that the operator does not hold.

## Main results

* `AsksOf`: what the operators ask of a stored text and their operand;
* `AsksOf.patternFor_eq`: the pattern of an operator is the escaped operand between anchors;
* `text_condition_meets`: a stored text meets the condition of an operator exactly when it is in the
  relation of that operator, and meets the negation otherwise.
-/

namespace DocumentMapper

open Text Pattern

/-- What an operator asks of its operand and a stored text, with the anchors of its pattern. -/
inductive AsksOf : String → Anchors → (List Char → List Char → Prop) → Prop
  | contains : AsksOf "contains" ⟨false, false⟩ fun operand text => operand <:+: text
  | startswith : AsksOf "startswith" ⟨true, false⟩ fun operand text => operand <+: text
  | endswith : AsksOf "endswith" ⟨false, true⟩ fun operand text => operand <:+ text
  | exact : AsksOf "exact" ⟨true, true⟩ fun operand text => operand = text

namespace AsksOf

variable {op : String} {a : Anchors} {rel : List Char → List Char → Prop}

/-- The relation of an operator is what the anchors of its pattern ask for. -/
theorem holds_iff (h : AsksOf op a rel) (operand text : List Char) :
    a.Holds operand text ↔ rel operand text := by
  cases h with
  | contains =>
    constructor
    · rintro ⟨before, after, htext, -, -⟩
      exact ⟨before, after, htext.symm⟩
    · rintro ⟨before, after, htext⟩
      exact ⟨before, after, htext.symm, nofun, nofun⟩
  | startswith =>
    constructor
    · rintro ⟨before, after, htext, hstart, -⟩
      rw [hstart rfl] at htext
      exact ⟨after, htext.symm⟩
    · rintro ⟨after, htext⟩
      exact ⟨[], after, htext.symm, fun _ => rfl, nofun⟩
  | endswith =>
    constructor
    · rintro ⟨before, after, htext, -, hend⟩
      rw [hend rfl, List.append_nil] at htext
      exact ⟨before, htext.symm⟩
    · rintro ⟨before, htext⟩
      exact ⟨before, [], by rw [List.append_nil, htext], nofun, fun _ => rfl⟩
  | exact =>
    constructor
    · rintro ⟨before, after, htext, hstart, hend⟩
      rw [hstart rfl, hend rfl, List.append_nil] at htext
      exact htext.symm
    · rintro rfl
      exact ⟨[], [], by simp, fun _ => rfl, fun _ => rfl⟩

/-- These operators are operators of filters and are written as names. -/
theorem isName (h : AsksOf op a rel) :
    IsName op ∧ isMatchOperator op = true ∧ isTextOperator op = true := by
  cases h <;> exact ⟨⟨by decide +kernel, by decide⟩, by decide, by decide⟩

/-- **The pattern of an operator is the escaped operand between the anchors.** -/
theorem patternFor_eq (h : AsksOf op a rel) (operand : String) :
    patternFor op operand = String.ofList (a.around (escapeChars operand.toList)) := by
  have hescape : Pattern.escape operand = String.ofList (escapeChars operand.toList) := rfl
  refine String.toList_inj.mp ?_
  cases h <;> simp [patternFor, hescape, Anchors.around, anchor]

/-- The condition of an operator is its pattern. -/
theorem textCondition_eq (h : AsksOf op a rel) (operand : String) :
    textCondition op operand = .single "$regex" (.string (patternFor op operand)) := by
  cases h <;> rfl

end AsksOf

/-! ### Evaluating patterns -/

section

variable {op : String} {a : Anchors} {rel : List Char → List Char → Prop} {operand : String}

/-- A stored text meets the condition of an operator exactly when it is in the relation of that
operator. -/
theorem textCondition_holds (hop : AsksOf op a rel)
    (hsize : (a.row operand.toList).length ≤ weightLimit) (text : String) (depth : Nat) :
    ∃ b, conditionHolds (textCondition op operand) [.string text] depth = .ok b ∧
      (b = true ↔ rel operand.toList text.toList) := by
  refine ⟨(chain (a.row operand.toList)).search text, ?_, ?_⟩
  · have hpattern : patternInAny false [.string text] (.string (patternFor op operand)) =
        .ok ((chain (a.row operand.toList)).search text) := by
      rw [patternInAny, hop.patternFor_eq, read?_row hsize]
      exact congrArg Except.ok (Bool.or_false _)
    rw [hop.textCondition_eq, conditionHolds_single (by decide)]
    exact hpattern
  · rw [search_row_iff, hop.holds_iff]

end

/-! ### Negated operators -/

section

variable {name op : String}

theorem TakesOperator.keywordSegments_not (h : TakesOperator name) (hop : IsName op) :
    Text.keywordSegments (name ++ "__not__" ++ op) = [name, "not", op] := by
  have htext : name ++ "__not__" ++ op = name ++ "__" ++ ("not" ++ "__" ++ op) := by
    refine String.toList_inj.mp ?_
    simp
  have hnot : TakesOperator "not" := ⟨⟨by decide +kernel, by decide⟩, by decide⟩
  rw [htext, keywordSegments_append h.takesSegments, hnot.keywordSegments hop,
    h.isName.keywordSegments]
  rfl

theorem TakesOperator.ne_rawKey_not (h : TakesOperator name) (hop : IsName op) :
    name ++ "__not__" ++ op ≠ rawKey := by
  intro hraw
  have hsegments := h.keywordSegments_not hop
  rw [hraw] at hsegments
  have hkey : Text.keywordSegments rawKey = ["", "raw", ""] := by decide
  rw [hkey] at hsegments
  exact absurd (List.cons.inj (List.cons.inj hsegments).2).1 (by decide)

/-- Between a name and an operator, `not` is a negation. -/
theorem TakesOperator.read_not (h : TakesOperator name) (hop : IsName op)
    (hmatch : isMatchOperator op = true) :
    Keyword.read (name ++ "__not__" ++ op) = ⟨[name], some op, true, []⟩ := by
  have hoperator : dropLastIf isMatchOperator [name, "not", op] = some (op, [name, "not"]) := by
    simp [dropLastIf, hmatch]
  have hescape : dropEscape [name, "not"] = [name, "not"] := by
    simp [dropEscape, dropLastIf]
  have hnot : dropLastIf (· == "not") [name, "not"] = some ("not", [name]) := by
    simp [dropLastIf]
  have hindex : isIndex "not" = false := by decide
  simp [Keyword.read, h.keywordSegments_not hop, h.isName.2, hop.2, hindex, hoperator, hescape,
    hnot, List.zipIdx]

end

/-! ### Conditions on text fields -/

/-- The operand of a text operator is its condition. -/
theorem Field.operand_text {f : Field} {op : String} (hkind : f.kind = .scalar .string)
    (htext : isTextOperator op = true) (operand : String) :
    f.operand (some op) (.string operand) = pure (textCondition op operand) := by
  obtain ⟨name, storageName, isRequired, kind, dflt, validator⟩ := f
  obtain rfl : kind = .scalar .string := hkind
  rw [Field.operand, if_neg (by simp [Value.isNull]), Kind.operand, if_pos ⟨.inl rfl, htext⟩]

/-- No text operator is an operator of places. -/
theorem isGeoOperator_of_text {op : String} (htext : isTextOperator op = true) :
    isGeoOperator op = false := by
  have hall : ∀ op ∈ textOperators, isGeoOperator op = false := by decide
  exact hall op (by simpa [isTextOperator] using htext)

/-- A stored value meets a condition that it answers exactly when it does not meet its negation. -/
theorem conditionHolds_not {condition : Json} {values : List Json} {depth : Nat} {b : Bool}
    (h : conditionHolds condition values (depth + 1) = .ok b) :
    conditionHolds (.single "$not" condition) values depth = .ok !b := by
  rw [conditionHolds_single (by decide)]
  simp only [operatorHolds, h]
  rfl

section

variable (c : Catalog) (σ : Supply) {t : DocumentType} {f : Field} {name op : String} {a : Anchors}
  {rel : List Char → List Char → Prop}

/-- **A stored text meets the condition of an operator exactly when it is in the relation of that
operator**, whatever the characters of both texts mean in patterns, and it meets the negation
otherwise. -/
theorem text_condition_meets (hop : AsksOf op a rel) (hname : TakesOperator name)
    (hf : t.field? (t.attributeOf name) = some f) (hkind : f.kind = .scalar .string)
    (hstored : IsSegment f.storageName) (hdollar : beginsWith "$" f.storageName = false)
    (operand : String) (hsize : (a.row operand.toList).length ≤ weightLimit) :
    ∃ filter negation,
      (compile c t [(name ++ "__" ++ op, .string operand)]).runFrom σ = (.ok filter, σ) ∧
      (compile c t [(name ++ "__not__" ++ op, .string operand)]).runFrom σ = (.ok negation, σ) ∧
      ∀ (r : Object) (text : String), r.get? f.storageName = some (.string text) →
        ∃ b, r.meets filter = .ok b ∧ r.meets negation = .ok (!b) ∧
          (b = true ↔ rel operand.toList text.toList) := by
  obtain ⟨hisName, hmatch, htext⟩ := hop.isName
  have hresolve := c.resolve_name hf
  have hoperand : (compileOperand f (some op) (.string operand) fun g =>
      (Value.string operand).itemMatch c g).runFrom σ = (.ok (textCondition op operand), σ) := by
    have hsingular : isSingular (some op) = true := by simp [isSingular, htext]
    simp only [compileOperand, isGeoOperator_of_text htext, hsingular, Bool.false_eq_true, ↓reduceIte,
      Field.operand_text hkind htext]
    rfl
  have hunder : underOperator (some op) (textCondition op operand) = textCondition op operand := by
    simp [underOperator, isPassedThrough, htext]
  have hpath : dotted (f.comparedNames (textCondition op operand) [f.storageName]) =
      f.storageName := by
    rw [Field.comparedNames_eq_self (by simp [hkind]), dotted_singleton]
  refine ⟨[(f.storageName, textCondition op operand)],
    [(f.storageName, .single "$not" (textCondition op operand))], ?_, ?_, fun r text hr => ?_⟩
  · refine (compile_names_eq_ok (hname.ne_rawKey hisName) (hname.read hisName hmatch)).mpr
      ⟨_, f, _, hresolve, rfl, hoperand, ?_⟩
    rw [hunder, List.map_singleton, PathElement.storageName, hpath]
    rfl
  · refine (compile_names_eq_ok (hname.ne_rawKey_not hisName) (hname.read_not hisName hmatch)).mpr
      ⟨_, f, _, hresolve, rfl, hoperand, ?_⟩
    rw [hunder, List.map_singleton, PathElement.storageName, hpath]
    rfl
  · have hlookup : r.lookup f.storageName = [.string text] := by
      rw [Object.lookup_of_segment (dottedSegments_of_isSegment hstored), hr]
      rfl
    obtain ⟨b, hfound, hrel⟩ := textCondition_holds hop hsize text 0
    obtain ⟨b', hfound', hrel'⟩ := textCondition_holds hop hsize text 1
    obtain rfl : b = b' := Bool.eq_iff_iff.mpr (hrel.trans hrel'.symm)
    refine ⟨b, ?_, ?_, hrel⟩
    · rw [meets_single hdollar, hlookup, hfound]
    · rw [meets_single hdollar, hlookup, conditionHolds_not hfound']

end

/-! ### Texts on placards -/

/-- Placards have a text. -/
def placardType : DocumentType where
  name := "Placard"
  className := "Placard"
  collection := some "placards"
  fields := [{ Field.ofKind "id" (.scalar .objectId) with storageName := idKey },
    { Field.ofKind "text" (.scalar .string) with storageName := "t" }]
  primaryKey := some "id"
  isDynamic := false
  allowsInheritance := false
  superclass := none

theorem placardType_built : placardType.Built := by
  let plain : Declaration := (Declaration.document "Placard").inCollection "placards"
  exact ⟨plain.withField { Field.ofKind "text" (.scalar .string) with storageName := "t" }, rfl⟩

theorem takesOperator_text : TakesOperator "text" :=
  ⟨⟨by decide +kernel, by decide⟩, by decide⟩

/-- A placard is asked for a text that would match anything if it were not escaped. -/
theorem text_condition_meets_placard : placardType.Built ∧ TakesOperator "text" ∧
    ∃ f, placardType.field? (placardType.attributeOf "text") = some f ∧
      f.kind = .scalar .string ∧ IsSegment f.storageName ∧
      beginsWith "$" f.storageName = false ∧
      (Anchors.row ⟨false, true⟩ ".*".toList).length ≤ weightLimit ∧
      ∃ filter, (compile .empty placardType [("text__endswith", .string ".*")]).runFrom .fresh =
          (.ok filter, .fresh) ∧
        Object.meets [("t", .string "a+b\n.*")] filter = .ok true ∧
        Object.meets [("t", .string "a+b\n")] filter = .ok false := by
  have hsize : (Anchors.row ⟨false, true⟩ ".*".toList).length ≤ weightLimit := by decide
  refine ⟨placardType_built, takesOperator_text, _, rfl, rfl, by decide, by decide, hsize, ?_⟩
  obtain ⟨filter, negation, hfilter, -, hmeets⟩ :=
    text_condition_meets .empty .fresh .endswith takesOperator_text (t := placardType) rfl rfl
      (by decide) (by decide) ".*" hsize
  obtain ⟨b, hyes, -, hends⟩ := hmeets [("t", .string "a+b\n.*")] "a+b\n.*" rfl
  obtain ⟨b', hno, -, hends'⟩ := hmeets [("t", .string "a+b\n")] "a+b\n" rfl
  obtain rfl : b = true := hends.mpr ⟨"a+b\n".toList, by decide⟩
  obtain rfl : b' = false := Bool.eq_false_iff.mpr fun h => absurd (hends'.mp h) (by decide)
  exact ⟨filter, hfilter, hyes, hno⟩

end DocumentMapper
