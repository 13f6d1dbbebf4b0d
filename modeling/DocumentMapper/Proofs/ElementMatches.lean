import DocumentMapper.Proofs.BuiltTypes
import DocumentMapper.Proofs.DottedPaths
import DocumentMapper.Proofs.KeywordConditions
import DocumentMapper.Proofs.Segments

/-!
# Conditions on the items of a list

A field of embedded documents is asked for an item that meets keyword conditions. The conditions are
compiled as a filter for the type of the items, and a record is found when one of the documents in
the array at the field meets the filter.

The filter stands one level deeper inside of the condition than it would by itself. So items that
answer it by itself answer it alike inside of the condition, unless the level is the one too many. A
filter whose keys all begin with a dollar sign is no filter there, but is read as operators.

## Main results

* `compile_match_eq_ok`: the filter of conditions on items;
* `element_match`: what the filter finds, for every type and every list of embedded documents.
-/

namespace DocumentMapper

open Text

variable {c : Catalog} {t E : DocumentType} {f element : Field} {name : String} {m : Conditions}
  {q r : Object} {σ σ' : Supply}

/-! ### Searching among items -/

section Search

variable {α : Type} {test : α → Except StoreError Bool} {xs : List α}

/-- A search among items that all answer says whether one of them answers yes. -/
theorem findAny_of_answers (h : ∀ x ∈ xs, ∃ b, test x = .ok b) :
    ∃ found, findAny test xs = .ok found ∧ (found = true ↔ ∃ x ∈ xs, test x = .ok true) := by
  induction xs with
  | nil => exact ⟨false, rfl, by simp⟩
  | cons x rest ih =>
    obtain ⟨⟨b, hb⟩, hrest⟩ := List.forall_mem_cons.mp h
    obtain ⟨found, hfound, hiff⟩ := ih hrest
    simp only [findAny, hb]
    cases b
    · exact ⟨found, hfound, by simp [hb, hiff]⟩
    · exact ⟨true, rfl, by simp [hb]⟩

/-- A search fails on an item. -/
theorem exists_of_findAny_eq_error {cause : StoreError} (h : findAny test xs = .error cause) :
    ∃ x ∈ xs, test x = .error cause := by
  obtain ⟨x, hgets, hx⟩ := findAny_eq_error_iff.mp h
  exact ⟨x, hgets.mem, hx⟩

end Search

/-! ### The filter of the items -/

theorem isName_match : IsName "match" :=
  ⟨by decide, by decide⟩

/-- **Conditions on items are a filter for the type of the items.** -/
theorem compile_match_eq_ok (hname : TakesOperator name)
    (hf : t.field? (t.attributeOf name) = some f) (hlist : f.kind = .list element)
    (hE : element.kind = .embedded E) {filter : Object} :
    (compile c t [(name ++ "__match", .dict m)]).runFrom σ = (.ok filter, σ') ↔
      ∃ q, (compile c E m).runFrom σ = (.ok q, σ') ∧
        filter = [(f.storageName, .single "$elemMatch" (.object q))] := by
  have hoperand : (compileOperand f (some "match") (.dict m) fun g =>
        (Value.dict m).itemMatch c g) =
      (fun q => .single "$elemMatch" (.object q)) <$> compile c E m := by
    have hitem : (Value.dict m).itemMatch c f =
        (fun q => .single "$elemMatch" (.object q)) <$> compile c E m := by
      simp only [Value.itemMatch, hlist, hE, compile, map_eq_pure_bind, bind_assoc, pure_bind]
    exact hitem
  have hkey : name ++ "__" ++ "match" = name ++ "__match" := by rw [String.append_assoc]; rfl
  rw [← hkey, compile_field_eq_ok (hname.ne_rawKey isName_match)
    (hname.read isName_match (by decide)) hf, hoperand, map_eq_pure_bind]
  simp only [Drawing.runFrom_bind_eq_ok, Drawing.runFrom_pure, Prod.mk.injEq, Except.ok.injEq,
    Field.comparedPath, hlist]
  constructor
  · rintro ⟨j, ⟨q, u, hq, rfl, rfl⟩, rfl⟩
    exact ⟨q, hq, rfl⟩
  · rintro ⟨q, hq, rfl⟩
    exact ⟨_, ⟨q, σ', hq, rfl, rfl⟩, rfl⟩

/-! ### What the filter finds -/

/-- Whether an item is a document that meets a filter, at some depth. -/
def Json.meetsAt (item : Json) (q : Object) (depth : Nat) : Except StoreError Bool :=
  match item with
  | .object e => Object.meetsAt e q depth
  | _ => return false

theorem itemHolds_of_filter (hq : isOperatorMap q = false) (item : Json) (depth : Nat) :
    itemHolds (.object q) item depth = item.meetsAt q depth := by
  simp only [itemHolds, hq]
  cases item <;> rfl

/-- An item that is a document answers one level deeper as it does by itself, unless that is too
deep. -/
theorem Json.nestedLike_meetsAt (item : Json) (q : Object) :
    NestedLike (item.meetsAt q 0) (item.meetsAt q 1) := by
  cases item with
  | object e => exact filterHolds_deeper (.object q) e (Nat.le_succ 0)
  | _ => exact .refl _

/-- The items that meet a filter are documents. -/
theorem Json.exists_meetsAt_iff {items : List Json} {depth : Nat} :
    (∃ item ∈ items, item.meetsAt q depth = .ok true) ↔
      ∃ e : Object, .object e ∈ items ∧ e.meetsAt q depth = .ok true := by
  constructor
  · rintro ⟨item, hitem, h⟩
    cases item with
    | object e => exact ⟨e, hitem, h⟩
    | _ => cases h
  · rintro ⟨e, he, h⟩
    exact ⟨_, he, h⟩

/-- The values of an entry are the items of its array. -/
theorem mem_itemsOf_of_segment {key : String} (hkey : IsSegment key) (item : Json) :
    item ∈ itemsOf (r.lookup key) ↔ ∃ items, r.get? key = some (.array items) ∧ item ∈ items := by
  rw [Object.lookup_of_segment (dottedSegments_of_isSegment hkey), itemsOf]
  cases r.get? key with
  | none => simp
  | some j => cases j <;> simp [Json.asArray?]

/-- **Conditions on items find the records with a document in the array that meets their filter.**
The filter has to be told from operators, and it must not come to be nested too deep. -/
theorem element_match (c : Catalog) (hname : TakesOperator name)
    (hf : t.field? (t.attributeOf name) = some f) (hlist : f.kind = .list element)
    (hE : element.kind = .embedded E) (hdollar : beginsWith "$" f.storageName = false)
    (hq : (compile c E m).runFrom σ = (.ok q, σ')) :
    ∃ filter, (compile c t [(name ++ "__match", .dict m)]).runFrom σ = (.ok filter, σ') ∧
      filter = [(f.storageName, .single "$elemMatch" (.object q))] ∧
      (isOperatorMap q = false → ∀ r : Object,
        (∀ e : Object, .object e ∈ itemsOf (r.lookup f.storageName) → ∃ b, e.meets q = .ok b) →
        (∃ found, r.meets filter = .ok found ∧
          (found = true ↔
            ∃ e : Object, .object e ∈ itemsOf (r.lookup f.storageName) ∧ e.meets q = .ok true)) ∨
        r.meets filter = .error (.nesting nestingLimit) ∧
          ∃ e : Object, .object e ∈ itemsOf (r.lookup f.storageName) ∧
            e.meetsAt q 1 = .error (.nesting nestingLimit)) ∧
      (IsSegment f.storageName → ∀ (r : Object) item, item ∈ itemsOf (r.lookup f.storageName) ↔
        ∃ items, r.get? f.storageName = some (.array items) ∧ item ∈ items) := by
  refine ⟨_, (compile_match_eq_ok hname hf hlist hE).mpr ⟨q, hq, rfl⟩, rfl,
    fun hfilter r hanswers => ?_, fun hsegment r item => mem_itemsOf_of_segment hsegment item⟩
  have hmeets : r.meets [(f.storageName, .single "$elemMatch" (.object q))] =
      findAny (fun item => item.meetsAt q 1) (itemsOf (r.lookup f.storageName)) := by
    rw [meets_single hdollar, conditionHolds_single (by decide)]
    exact congrArg (findAny · _) (funext fun item => itemHolds_of_filter hfilter item 1)
  have hitems : ∀ item ∈ itemsOf (r.lookup f.storageName), ∃ b, item.meetsAt q 0 = .ok b := by
    intro item hitem
    cases item with
    | object e => exact hanswers e hitem
    | _ => exact ⟨false, rfl⟩
  obtain ⟨found, hfound, hiff⟩ := findAny_of_answers hitems
  rw [hmeets]
  have hlike : NestedLike
      (findAny (fun item => item.meetsAt q 0) (itemsOf (r.lookup f.storageName)))
      (findAny (fun item => item.meetsAt q 1) (itemsOf (r.lookup f.storageName))) :=
    nestedLike_findAny fun item => item.nestedLike_meetsAt q
  rcases hlike with hsame | hnested
  · exact .inl ⟨found, hsame.trans hfound, hiff.trans Json.exists_meetsAt_iff⟩
  · obtain ⟨item, hitem, herror⟩ := exists_of_findAny_eq_error hnested
    refine .inr ⟨hnested, ?_⟩
    cases item with
    | object e => exact ⟨e, hitem, herror⟩
    | _ => cases herror

/-! ### Novels by their reviews -/

/-- Reviews have votes. -/
def reviewType : DocumentType where
  name := "Review"
  className := "Review"
  collection := none
  fields := [.ofKind "votes" (.scalar .int)]
  primaryKey := none
  isDynamic := false
  allowsInheritance := false
  superclass := none

/-- Novels have reviews. -/
def novelType : DocumentType where
  name := "Novel"
  className := "Novel"
  collection := some "novels"
  fields := [{ Field.ofKind "id" (.scalar .objectId) with storageName := idKey },
    .list "reviews" (.embedded reviewType)]
  primaryKey := some "id"
  isDynamic := false
  allowsInheritance := false
  superclass := none

theorem novelType_built : novelType.Built := by
  let plain : Declaration := (Declaration.document "Novel").inCollection "novels"
  exact ⟨plain.withField (.list "reviews" (.embedded reviewType)), rfl⟩

/-- A stored novel with a review. -/
def reviewedNovel : Object :=
  [(idKey, .string "n1"), ("reviews", .array [.object [("votes", .ofInt64 1)]])]

theorem takesOperator_reviews : TakesOperator "reviews" :=
  ⟨⟨by decide +kernel, by decide⟩, by decide⟩

/-- The filter for novels with a review of one vote. -/
def oneVoteFilter : Object :=
  [("reviews", .single "$elemMatch" (.object [("votes", .ofInt64 1)]))]

theorem element_match_novel : novelType.Built ∧ TakesOperator "reviews" ∧
    novelType.field? (novelType.attributeOf "reviews") =
      some (.list "reviews" (.embedded reviewType)) ∧
    (compile .empty reviewType [("votes", .int 1)]).runFrom .fresh =
      (.ok [("votes", .ofInt64 1)], .fresh) ∧
    (compile .empty novelType [("reviews__match", .dict [("votes", .int 1)])]).runFrom .fresh =
      (.ok oneVoteFilter, .fresh) ∧
    (∀ item, item ∈ itemsOf (reviewedNovel.lookup "reviews") ↔
      ∃ items, reviewedNovel.get? "reviews" = some (.array items) ∧ item ∈ items) ∧
    ((∃ found, reviewedNovel.meets oneVoteFilter = .ok found ∧
        (found = true ↔ ∃ e : Object, .object e ∈ itemsOf (reviewedNovel.lookup "reviews") ∧
          e.meets [("votes", .ofInt64 1)] = .ok true)) ∨
      reviewedNovel.meets oneVoteFilter = .error (.nesting nestingLimit) ∧
        ∃ e : Object, .object e ∈ itemsOf (reviewedNovel.lookup "reviews") ∧
          e.meetsAt [("votes", .ofInt64 1)] 1 = .error (.nesting nestingLimit)) := by
  have hfield : novelType.field? (novelType.attributeOf "reviews") =
      some (.list "reviews" (.embedded reviewType)) := rfl
  have hcompile : (compile .empty reviewType [("votes", .int 1)]).runFrom .fresh =
      (.ok [("votes", .ofInt64 1)], .fresh) := rfl
  obtain ⟨filter, hrun, rfl, hfinds, hitems⟩ :=
    element_match .empty takesOperator_reviews hfield rfl rfl (by decide) hcompile
  refine ⟨novelType_built, takesOperator_reviews, hfield, hcompile, hrun,
    hitems (by decide) reviewedNovel, hfinds (by decide) reviewedNovel fun e he => ?_⟩
  obtain rfl : e = [("votes", .ofInt64 1)] := Json.object.inj (List.mem_singleton.mp he)
  exact ⟨true, rfl⟩

/-- A filter for one vote that asks for the same under OR, some levels deep. -/
def nestedFilter : Nat → Object
  | 0 => [("votes", .ofInt64 1)]
  | n + 1 => [("$or", .array [.object (nestedFilter n)]), ("votes", .ofInt64 1)]

/-- The same as a value. -/
def nestedVotes : Nat → Value
  | 0 => .dict [("votes", .int 1)]
  | n + 1 => .dict [("$or", .list [nestedVotes n]), ("votes", .int 1)]

theorem plain_nestedVotes (n : Nat) : (nestedVotes n).plain.Yields (.object (nestedFilter n)) := by
  induction n with
  | zero => exact fun _ => rfl
  | succ n ih =>
    have hvotes : (Value.int 1).leafJson.Yields (.ofInt64 1) := fun _ => rfl
    intro σ
    simp [nestedVotes, nestedFilter, Value.plain, plainEntries, plainItems, Drawing.runFrom_bind,
      ih σ, hvotes σ, Except.map]

/-- Every level of OR counts. -/
theorem filterHolds_nestedFilter (n depth : Nat) :
    filterHolds (.object (nestedFilter n)) [("votes", .ofInt64 1)] depth =
      if nestingLimit < depth + n then .error (.nesting nestingLimit) else .ok true := by
  induction n generalizing depth with
  | zero =>
    rw [filterHolds]
    rfl
  | succ n ih =>
    have hclauses : ([.object (nestedFilter n)] : List Json).all
        (fun clause => clause.asObject?.isSome) = true := rfl
    rw [filterHolds, nestedFilter, entriesHold_cons, entryHolds]
    simp only [clauseAnswers, anyAnswers, hclauses, ih,
      show depth + 1 + n = depth + (n + 1) by omega]
    by_cases hdeep : nestingLimit < depth + (n + 1)
    · simp only [if_pos hdeep]
      split <;> rfl
    · rw [if_neg (by omega)]
      simp only [if_neg hdeep]
      rfl

/-- Keyword conditions with as many levels as can be evaluated. -/
def deepConditions : Conditions :=
  [(rawKey, nestedVotes 32)]

theorem compile_deepConditions :
    (compile .empty reviewType deepConditions).runFrom .fresh =
      (.ok (nestedFilter 32), .fresh) := by
  have hraw : (rawDocument rawKey (nestedVotes 32)).runFrom .fresh =
      (.ok (nestedFilter 32), .fresh) := by
    simp only [rawDocument, Drawing.runFrom_bind, plain_nestedVotes 32 .fresh]
    rfl
  exact compile_eq_ok.mpr ⟨_, compileEntries_raw_eq_ok.mpr ⟨_, _, hraw, rfl⟩, rfl⟩

/-- A review meets conditions, but in a novel it is not matched by them. -/
theorem deepConditions_not_matched : novelType.Built ∧ ∃ filter,
    (compile .empty reviewType deepConditions).runFrom .fresh = (.ok (nestedFilter 32), .fresh) ∧
    isOperatorMap (nestedFilter 32) = false ∧
    (compile .empty novelType [("reviews__match", .dict deepConditions)]).runFrom .fresh =
      (.ok filter, .fresh) ∧
    (∀ item ∈ itemsOf (reviewedNovel.lookup "reviews"), ∃ e : Object, item = .object e ∧
      e.meets (nestedFilter 32) = .ok true) ∧
    reviewedNovel.meets filter = .error (.nesting nestingLimit) := by
  have hfield : novelType.field? (novelType.attributeOf "reviews") =
      some (.list "reviews" (.embedded reviewType)) := rfl
  have hfilter := (compile_match_eq_ok takesOperator_reviews hfield rfl rfl).mpr
    ⟨_, compile_deepConditions, rfl⟩
  refine ⟨novelType_built, _, compile_deepConditions, rfl, hfilter, fun item hitem => ?_, ?_⟩
  · refine ⟨_, List.mem_singleton.mp hitem, ?_⟩
    exact filterHolds_nestedFilter 32 0
  · have hitem : itemHolds (.object (nestedFilter 32)) (.object [("votes", .ofInt64 1)]) 1 =
        .error (.nesting nestingLimit) := by
      rw [itemHolds_of_filter rfl]
      exact filterHolds_nestedFilter 32 1
    have hsearch : findAny (fun item => itemHolds (.object (nestedFilter 32)) item 1)
        (itemsOf (reviewedNovel.lookup "reviews")) = .error (.nesting nestingLimit) := by
      change findAny _ [_] = _
      rw [findAny, hitem]
      rfl
    rw [meets_single (by decide), conditionHolds_single (by decide)]
    exact hsearch

end DocumentMapper
