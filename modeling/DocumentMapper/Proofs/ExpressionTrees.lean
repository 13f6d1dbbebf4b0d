import DocumentMapper.Proofs.ConditionLists

/-!
# Trees of conditions

The truth value of a tree comes from those of its leaves: an AND is true when all children are, an
OR when one of its children that have conditions is, or when none has any. So a tree without
conditions is true, and can be dropped from a node of either connective.

Simplifying a tree and joining trees keep to these values, whatever the single conditions are. So
does compiling a tree, with the leaves read as whether a document meets their filters.

## Main results

* `value_simplify`, `isEmpty_simplify`, `simplify_simplify`: simplifying keeps the value and the
  conditions, and is done after one time;
* `value_and`, `value_or`: the values of joined trees;
* `follows`: a document meets the filter of a tree exactly when the tree is true of it;
* `keeps_value`: all of this for every tree.
-/

namespace DocumentMapper

namespace Filter

/-- Induction on trees, with the assumption for every child of a node. -/
@[elab_as_elim]
theorem induct {P : Filter → Prop} (leaf : ∀ conditions, P (leaf conditions))
    (node : ∀ op children, (∀ f ∈ children, P f) → P (node op children)) : ∀ f, P f
  | .leaf conditions => leaf conditions
  | .node op children => node op children fun f _ => induct leaf node f

/-- Tests that agree on the items of a list hold of all of them alike. -/
theorem all_eq_all_of_mem {α : Type} {xs : List α} {p q : α → Bool} (h : ∀ x ∈ xs, p x = q x) :
    xs.all p = xs.all q := by
  rw [Bool.eq_iff_iff, List.all_eq_true, List.all_eq_true]
  exact forall₂_congr fun x hx => by rw [h x hx]

/-- Tests that agree on the items of a list hold of any of them alike. -/
theorem any_eq_any_of_mem {α : Type} {xs : List α} {p q : α → Bool} (h : ∀ x ∈ xs, p x = q x) :
    xs.any p = xs.any q := by
  rw [Bool.eq_iff_iff, List.any_eq_true, List.any_eq_true]
  exact exists_congr fun x => and_congr_right fun hx => by rw [h x hx]

/-! ### Truth values of trees -/

section

variable {m : Type → Type} [Monad m]

mutual

/-- The truth value of a tree, given a reading of its leaves. Empty children of an OR do not
count. -/
def valueM (leafValue : Conditions → m Bool) : Filter → m Bool
  | leaf conditions => leafValue conditions
  | node .and children => allValuesM leafValue children
  | node .or children =>
    if allEmpty children then return true else anyValuesM leafValue children
termination_by structural f => f

/-- Whether all of some trees are true. -/
def allValuesM (leafValue : Conditions → m Bool) : List Filter → m Bool
  | [] => return true
  | f :: fs => do
    let first ← valueM leafValue f
    let others ← allValuesM leafValue fs
    return first && others
termination_by structural fs => fs

/-- Whether any of some trees that has conditions is true. -/
def anyValuesM (leafValue : Conditions → m Bool) : List Filter → m Bool
  | [] => return false
  | f :: fs => do
    if f.isEmpty then anyValuesM leafValue fs
    else
      let first ← valueM leafValue f
      let others ← anyValuesM leafValue fs
      return first || others
termination_by structural fs => fs

end

end

theorem allEmpty_eq_all (fs : List Filter) : allEmpty fs = fs.all isEmpty := by
  induction fs with
  | nil => rfl
  | cons f rest ih => simp [allEmpty, ih]

@[simp] theorem isEmpty_leaf (conditions : Conditions) :
    (leaf conditions).isEmpty = conditions.isEmpty := rfl

@[simp] theorem isEmpty_node (op : Connective) (children : List Filter) :
    (node op children).isEmpty = children.all isEmpty :=
  allEmpty_eq_all children

/-- A tree without conditions is true if a leaf without conditions is. -/
theorem valueM_of_isEmpty {m : Type → Type} [Monad m] [LawfulMonad m]
    {leafValue : Conditions → m Bool} (hleaf : leafValue [] = pure true) {f : Filter}
    (h : f.isEmpty = true) : f.valueM leafValue = pure true := by
  induction f using induct with
  | leaf conditions =>
    rw [isEmpty_leaf, List.isEmpty_iff] at h
    rw [h]
    exact hleaf
  | node op children ih =>
    have hall := List.all_eq_true.mp (isEmpty_node op children ▸ h)
    cases op with
    | and =>
      rw [valueM]
      clear h
      induction children with
      | nil => rfl
      | cons f rest ihrest =>
        obtain ⟨hfirst, hrest⟩ := List.forall_mem_cons.mp ih
        obtain ⟨hempty, hothers⟩ := List.forall_mem_cons.mp hall
        simp [allValuesM, hfirst hempty, ihrest hrest hothers]
    | or =>
      rw [valueM, if_pos]
      exact h

/-- The truth value of a tree whose leaves are true where all of their conditions are. -/
def value (holds : String × Value → Bool) (f : Filter) : Bool :=
  Id.run (f.valueM fun conditions => pure (conditions.all holds))

section

variable {holds : String × Value → Bool}

@[simp] theorem value_leaf (conditions : Conditions) :
    value holds (leaf conditions) = conditions.all holds := rfl

@[simp] theorem value_and_node (children : List Filter) :
    value holds (node .and children) = children.all (value holds) := by
  change Id.run (allValuesM _ children) = _
  induction children with
  | nil => rfl
  | cons f rest ih => simp [allValuesM, ih, value]

@[simp] theorem value_or_node (children : List Filter) :
    value holds (node .or children) =
      (children.all isEmpty || children.any fun f => !f.isEmpty && value holds f) := by
  have hany : Id.run (anyValuesM (fun conditions => pure (conditions.all holds)) children) =
      children.any fun f => !f.isEmpty && value holds f := by
    induction children with
    | nil => rfl
    | cons f rest ih => cases hf : f.isEmpty <;> simp [anyValuesM, hf, ih, value]
  change Id.run (if allEmpty children then _ else _) = _
  rw [← allEmpty_eq_all]
  cases hempty : allEmpty children
  · exact hany
  · rfl

/-- A tree without conditions is true. -/
theorem value_of_isEmpty {f : Filter} (h : f.isEmpty = true) : value holds f = true := by
  rw [value, valueM_of_isEmpty rfl h]
  rfl

/-! ### Simplifying -/

theorem simplifyAll_eq (fs : List Filter) :
    simplifyAll fs = (fs.map simplify).filter fun f => !f.isEmpty := by
  induction fs with
  | nil => rfl
  | cons f rest ih => cases hf : f.simplify.isEmpty <;> simp [simplifyAll, hf, ih]

/-- Merged leaves have all conditions. -/
theorem mergeLeaves?_eq_some {acc merged : Conditions} {fs : List Filter}
    (h : mergeLeaves? acc fs = some merged) :
    ∃ lists : List Conditions, fs = lists.map leaf ∧ merged = acc ++ lists.flatten := by
  induction fs generalizing acc with
  | nil => exact ⟨[], rfl, by simpa [mergeLeaves?, eq_comm] using h⟩
  | cons f rest ih =>
    cases f with
    | node op children => cases h
    | leaf conditions =>
      simp only [mergeLeaves?] at h
      split at h
      · cases h
      · obtain ⟨lists, rfl, rfl⟩ := ih h
        exact ⟨conditions :: lists, rfl, by simp⟩

/-- Making a node is making one of its children, as one leaf or as they are. -/
theorem simplifyNode_cases (op : Connective) (children : List Filter) :
    simplifyNode op children = node op children ∨
      op = .and ∧ ∃ lists : List Conditions, children = lists.map leaf ∧
        simplifyNode op children = leaf lists.flatten := by
  unfold simplifyNode
  split
  · split
    · rename_i merged hmerged
      obtain ⟨lists, rfl, rfl⟩ := mergeLeaves?_eq_some hmerged
      exact .inr ⟨rfl, lists, rfl, rfl⟩
    · exact .inl rfl
  · exact .inl rfl

theorem isEmpty_simplifyNode (op : Connective) (children : List Filter) :
    (simplifyNode op children).isEmpty = children.all isEmpty := by
  rcases simplifyNode_cases op children with h | ⟨-, lists, rfl, h⟩
  · rw [h, isEmpty_node]
  · rw [h, isEmpty_leaf, Bool.eq_iff_iff]
    simp

theorem value_simplifyNode (op : Connective) (children : List Filter) :
    value holds (simplifyNode op children) = value holds (node op children) := by
  rcases simplifyNode_cases op children with h | ⟨rfl, lists, rfl, h⟩
  · rw [h]
  · rw [h, value_leaf, value_and_node, List.all_flatten, List.all_map]
    rfl

/-- **Simplifying does not make a tree empty.** -/
theorem isEmpty_simplify (f : Filter) : f.simplify.isEmpty = f.isEmpty := by
  induction f using induct with
  | leaf conditions => rfl
  | node op children ih =>
    have hchildren : (simplifyAll children).all isEmpty = children.all isEmpty := by
      rw [simplifyAll_eq, List.all_filter, List.all_map]
      exact all_eq_all_of_mem fun f hf => by simp [ih f hf]
    rw [simplify, isEmpty_simplifyNode, hchildren, isEmpty_node]

/-- The children that simplifying keeps are not empty. -/
theorem not_isEmpty_of_mem_simplifyAll {f : Filter} {fs : List Filter} (h : f ∈ simplifyAll fs) :
    f.isEmpty = false := by
  rw [simplifyAll_eq, List.mem_filter] at h
  simpa using h.2

/-- **Simplifying keeps the truth value**, whatever the conditions are. -/
theorem value_simplify (f : Filter) : value holds f.simplify = value holds f := by
  induction f using induct with
  | leaf conditions => rfl
  | node op children ih =>
    rw [simplify, value_simplifyNode]
    cases op with
    | and =>
      rw [value_and_node, value_and_node, simplifyAll_eq, List.all_filter, List.all_map]
      refine all_eq_all_of_mem fun f hf => ?_
      cases hempty : f.isEmpty
      · simp [isEmpty_simplify, hempty, ih f hf]
      · simp [isEmpty_simplify, hempty, value_of_isEmpty hempty]
    | or =>
      have hempty : (simplifyAll children).all isEmpty = children.all isEmpty := by
        rw [← isEmpty_simplifyNode .or, ← isEmpty_node .or]
        exact isEmpty_simplify (node .or children)
      have hany : ((simplifyAll children).any fun f => !f.isEmpty && value holds f) =
          children.any fun f => !f.isEmpty && value holds f := by
        rw [simplifyAll_eq, List.any_filter, List.any_map]
        refine any_eq_any_of_mem fun f hf => ?_
        simp [isEmpty_simplify, ih f hf]
      rw [value_or_node, value_or_node, hempty, hany]

/-- Simplifying once more what was simplified changes nothing. -/
theorem simplify_simplify (f : Filter) : f.simplify.simplify = f.simplify := by
  induction f using induct with
  | leaf conditions => rfl
  | node op children ih =>
    have hsame : simplifyAll (simplifyAll children) = simplifyAll children := by
      have hmap : (simplifyAll children).map simplify = simplifyAll children := by
        refine (List.map_congr_left fun f hf => ?_).trans (List.map_id _)
        rw [simplifyAll_eq, List.mem_filter, List.mem_map] at hf
        obtain ⟨⟨g, hg, rfl⟩, -⟩ := hf
        exact ih g hg
      rw [simplifyAll_eq (simplifyAll children), hmap, List.filter_eq_self]
      intro f hf
      rw [not_isEmpty_of_mem_simplifyAll hf]
      rfl
    rw [simplify]
    rcases simplifyNode_cases op (simplifyAll children) with h | ⟨-, lists, -, h⟩
    · rw [h, simplify, hsame, h]
    · rw [h, simplify]

end

/-! ### Joining -/

section

variable {holds : String × Value → Bool}

theorem all_value_childrenFor (f : Filter) :
    (f.childrenFor .and).all (value holds) = value holds f := by
  cases f with
  | leaf conditions => simp [childrenFor]
  | node op children => cases op <;> simp [childrenFor]

theorem any_value_childrenFor {f : Filter} (h : f.isEmpty = false) :
    ((f.childrenFor .or).any fun f => !f.isEmpty && value holds f) = value holds f := by
  have hself : ([f].any fun f => !f.isEmpty && value holds f) = value holds f := by simp [h]
  cases f with
  | leaf conditions => exact hself
  | node op children =>
    cases op with
    | and => exact hself
    | or =>
      rw [isEmpty_node] at h
      rw [value_or_node, h, Bool.false_or]
      rfl

theorem all_isEmpty_childrenFor (op : Connective) (f : Filter) :
    (f.childrenFor op).all isEmpty = f.isEmpty := by
  cases f with
  | leaf conditions => simp [childrenFor]
  | node inner children =>
    simp only [childrenFor]
    split <;> simp

/-- Both filters hold together. -/
theorem value_and (a b : Filter) :
    value holds (a.and b) = (value holds a && value holds b) := by
  unfold and join
  split
  · rename_i hb
    rw [value_of_isEmpty hb, Bool.and_true]
  · split
    · rename_i ha
      rw [value_of_isEmpty ha, Bool.true_and]
    · rw [value_and_node, List.all_append, all_value_childrenFor, all_value_childrenFor]

/-- Either filter holds, or the one that has conditions. -/
theorem value_or (a b : Filter) :
    value holds (a.or b) =
      if b.isEmpty then value holds a
      else if a.isEmpty then value holds b
      else value holds a || value holds b := by
  unfold or join
  split
  · rfl
  · rename_i hb
    split
    · rfl
    · rename_i ha
      rw [value_or_node, List.all_append, List.any_append, all_isEmpty_childrenFor,
        all_isEmpty_childrenFor, any_value_childrenFor (Bool.eq_false_iff.mpr ha),
        any_value_childrenFor (Bool.eq_false_iff.mpr hb), Bool.eq_false_iff.mpr ha,
        Bool.false_and, Bool.false_or]

end

/-! ### Compiling -/

/-- Whether a document meets the filter of a leaf. A filter that is not answered is not met. -/
def meetsLeaf (c : Catalog) (t : DocumentType) (doc : Object) (conditions : Conditions) :
    Drawing Bool := do
  match doc.meets (← compile c t conditions) with
  | .ok b => return b
  | .error _ => return false

section

variable {c : Catalog} {t : DocumentType} {doc : Object} {s s' : Supply}

theorem meetsLeaf_nil : meetsLeaf c t doc [] = pure true := by
  simp [meetsLeaf, compile, compileEntries, Object.meets_eq, entriesHold, Draft.finish, pure_bind]
  rfl

/-- The children of a node are compiled one after the other, without the empty ones. -/
theorem compileChildren_cons_eq_ok {f : Filter} {fs : List Filter} {js : List Json} :
    (compileChildren c t (f :: fs)).runFrom s = (.ok js, s') ↔
      (f.isEmpty = true ∧ (compileChildren c t fs).runFrom s = (.ok js, s')) ∨
      (f.isEmpty = false ∧ ∃ q u rest, (compileNode c t f).runFrom s = (.ok q, u) ∧
        (compileChildren c t fs).runFrom u = (.ok rest, s') ∧ js = .object q :: rest) := by
  simp only [compileChildren]
  cases hf : f.isEmpty
  · simp only [Bool.false_eq_true, if_false, Drawing.runFrom_bind_eq_ok, false_and, true_and,
      false_or]
    constructor
    · rintro ⟨q, u, hq, rest, u', hrest, hpure⟩
      obtain ⟨rfl, rfl⟩ : .object q :: rest = js ∧ u' = s' := by simpa using hpure
      exact ⟨q, u, rest, hq, hrest, rfl⟩
    · rintro ⟨q, u, rest, hq, hrest, rfl⟩
      exact ⟨q, u, hq, rest, s', hrest, rfl⟩
  · simp

theorem isEmpty_of_compileChildren {fs : List Filter} {js : List Json}
    (h : (compileChildren c t fs).runFrom s = (.ok js, s')) : js.isEmpty = allEmpty fs := by
  induction fs generalizing s js with
  | nil =>
    obtain ⟨rfl, -⟩ : [] = js ∧ s = s' := by simpa [compileChildren] using h
    rfl
  | cons f rest ih =>
    rcases compileChildren_cons_eq_ok.mp h with ⟨hf, hrest⟩ | ⟨hf, q, u, others, -, -, rfl⟩
    · rw [ih hrest, allEmpty, hf, Bool.true_and]
    · rw [allEmpty, hf]
      rfl

/-- Children without conditions draw nothing. -/
theorem supply_of_compileChildren_nil {fs : List Filter}
    (h : (compileChildren c t fs).runFrom s = (.ok [], s')) : s = s' := by
  induction fs with
  | nil => simpa [compileChildren] using h
  | cons f rest ih =>
    rcases compileChildren_cons_eq_ok.mp h with ⟨-, hrest⟩ | ⟨-, q, u, others, -, -, heq⟩
    · exact ih hrest
    · cases heq

variable (c t doc) in
/-- The filter of a tree says what the tree says, wherever it is answered. -/
def Follows (f : Filter) : Prop :=
  ∀ {s s' : Supply} {q : Object}, (compileNode c t f).runFrom s = (.ok q, s') →
    ∃ v, (f.valueM (meetsLeaf c t doc)).runFrom s = (.ok v, s') ∧
      ∀ depth b, filterHolds (.object q) doc depth = .ok b → b = v

theorem follows_leaf (conditions : Conditions) : Follows c t doc (leaf conditions) := by
  intro s s' q hrun
  refine ⟨match doc.meets q with | .ok b => b | .error _ => false, ?_, fun depth b hb => ?_⟩
  · refine Drawing.runFrom_bind_eq_ok.mpr ⟨q, s', hrun, ?_⟩
    cases doc.meets q <;> rfl
  · have hmeets : doc.meets q = .ok b :=
      (filterHolds_deeper (.object q) doc (Nat.zero_le depth)).answer hb
    rw [hmeets]

/-- A search for a clause that fails answers whether one of the children is not true. -/
theorem follows_allValues {children : List Filter} (h : ∀ f ∈ children, Follows c t doc f)
    {js : List Json} (hrun : (compileChildren c t children).runFrom s = (.ok js, s')) :
    ∃ v, (allValuesM (meetsLeaf c t doc) children).runFrom s = (.ok v, s') ∧
      ∀ depth b, anyAnswers js false doc depth = .ok b → b = !v := by
  induction children generalizing s js with
  | nil =>
    obtain ⟨rfl, rfl⟩ : [] = js ∧ s = s' := by simpa [compileChildren] using hrun
    refine ⟨true, rfl, fun depth b hb => ?_⟩
    simpa [anyAnswers, pure, Except.pure, eq_comm] using hb
  | cons f rest ih =>
    obtain ⟨hfirst, hothers⟩ := List.forall_mem_cons.mp h
    simp only [allValuesM, Drawing.runFrom_bind_eq_ok]
    rcases compileChildren_cons_eq_ok.mp hrun with
      ⟨hempty, hrest⟩ | ⟨-, q, u, others, hq, hrest, rfl⟩
    · obtain ⟨v, hv, hanswer⟩ := ih hothers hrest
      rw [valueM_of_isEmpty meetsLeaf_nil hempty]
      exact ⟨v, ⟨true, s, rfl, v, s', hv, rfl⟩, hanswer⟩
    · obtain ⟨first, hvalue, hfilter⟩ := hfirst hq
      obtain ⟨v, hv, hanswer⟩ := ih hothers hrest
      refine ⟨first && v, ⟨first, u, hvalue, v, s', hv, rfl⟩, fun depth b hb => ?_⟩
      rcases anyAnswers_cons.mp hb with ⟨hclause, rfl⟩ | ⟨hclause, hthen⟩
      · rw [← hfilter _ _ hclause]
        rfl
      · rw [← hfilter _ _ hclause, hanswer _ _ hthen]
        rfl

/-- A search for a clause that holds answers whether one of the children is true. -/
theorem follows_anyValues {children : List Filter} (h : ∀ f ∈ children, Follows c t doc f)
    {js : List Json} (hrun : (compileChildren c t children).runFrom s = (.ok js, s')) :
    ∃ v, (anyValuesM (meetsLeaf c t doc) children).runFrom s = (.ok v, s') ∧
      ∀ depth b, anyAnswers js true doc depth = .ok b → b = v := by
  induction children generalizing s js with
  | nil =>
    obtain ⟨rfl, rfl⟩ : [] = js ∧ s = s' := by simpa [compileChildren] using hrun
    refine ⟨false, rfl, fun depth b hb => ?_⟩
    simpa [anyAnswers, pure, Except.pure, eq_comm] using hb
  | cons f rest ih =>
    obtain ⟨hfirst, hothers⟩ := List.forall_mem_cons.mp h
    rcases compileChildren_cons_eq_ok.mp hrun with
      ⟨hempty, hrest⟩ | ⟨hnot, q, u, others, hq, hrest, rfl⟩
    · simp only [anyValuesM, hempty, if_true]
      exact ih hothers hrest
    · simp only [anyValuesM, hnot, Bool.false_eq_true, if_false, Drawing.runFrom_bind_eq_ok]
      obtain ⟨first, hvalue, hfilter⟩ := hfirst hq
      obtain ⟨v, hv, hanswer⟩ := ih hothers hrest
      refine ⟨first || v, ⟨first, u, hvalue, v, s', hv, rfl⟩, fun depth b hb => ?_⟩
      rcases anyAnswers_cons.mp hb with ⟨hclause, rfl⟩ | ⟨hclause, hthen⟩
      · rw [← hfilter _ _ hclause]
        rfl
      · rw [← hfilter _ _ hclause, hanswer _ _ hthen]
        rfl

/-- **A compiled tree says what the tree says.** -/
theorem follows (f : Filter) : Follows c t doc f := by
  induction f using induct with
  | leaf conditions => exact follows_leaf conditions
  | node op children ih =>
    intro s s' q hrun
    simp only [compileNode, Drawing.runFrom_bind_eq_ok] at hrun
    obtain ⟨js, u, hjs, hpure⟩ := hrun
    obtain ⟨rfl, rfl⟩ : (if js.isEmpty then [] else [(op.operator, .array js)]) = q ∧ u = s' := by
      simpa using hpure
    cases op with
    | and =>
      obtain ⟨v, hv, hanswer⟩ := follows_allValues ih hjs
      refine ⟨v, hv, fun depth b hb => ?_⟩
      cases js with
      | nil =>
        have hvalue := hanswer depth false rfl
        rw [Bool.not_eq_eq_eq_not.mp hvalue.symm]
        exact (Except.ok.inj (filterHolds_object_eq_ok hb)).symm
      | cons j others =>
        obtain ⟨a, ha, rfl⟩ := map_answer_eq_ok.mp (entryHolds_of_filterHolds hb)
        rw [hanswer _ _ (anyAnswers_of_clauseAnswers ha), Bool.not_not]
    | or =>
      have hempty := isEmpty_of_compileChildren hjs
      obtain ⟨v, hv, hanswer⟩ := follows_anyValues ih hjs
      cases js with
      | nil =>
        obtain rfl := supply_of_compileChildren_nil hjs
        refine ⟨true, ?_, fun depth b hb => ?_⟩
        · rw [valueM, ← hempty]
          rfl
        · exact (Except.ok.inj (filterHolds_object_eq_ok hb)).symm
      | cons j others =>
        refine ⟨v, ?_, fun depth b hb => ?_⟩
        · rw [valueM, ← hempty]
          exact hv
        · exact hanswer _ _ (anyAnswers_of_clauseAnswers (entryHolds_of_filterHolds hb))

end

/-- **A tree keeps its value** when it is simplified, joined and compiled. -/
theorem keeps_value (f : Filter) :
    (∀ holds, value holds f.simplify = value holds f) ∧ f.simplify.simplify = f.simplify ∧
    f.isEmpty = f.simplify.isEmpty ∧
    (∀ holds g, value holds (f.and g) = (value holds f && value holds g) ∧
      value holds (f.or g) =
        if g.isEmpty then value holds f
        else if f.isEmpty then value holds g
        else value holds f || value holds g) ∧
    ∀ (c : Catalog) (t : DocumentType) (s s' : Supply) (q doc : Object) (b : Bool),
      (compileNode c t f).runFrom s = (.ok q, s') → doc.meets q = .ok b →
        (f.valueM (meetsLeaf c t doc)).runFrom s = (.ok b, s') := by
  refine ⟨fun _ => value_simplify f, simplify_simplify f, (isEmpty_simplify f).symm,
    fun _ g => ⟨value_and f g, value_or f g⟩, fun c t s s' q doc b hrun hmeets => ?_⟩
  obtain ⟨v, hv, hfilter⟩ := follows f hrun
  rw [hfilter 0 b hmeets]
  exact hv

/-- A number in a range or a certain one. -/
def someNumbers : Filter :=
  node .or [empty, node .and [leaf [("meta__gte", .int 1)], leaf [("meta__lte", .int 9)]],
    leaf [("meta", .int 12)]]

theorem keeps_value_someNumbers :
    (someNumbers.valueM (meetsLeaf .empty bagType (bagWith (.ofInt64 5)))).runFrom .fresh =
      (.ok true, .fresh) := by
  have hrun : (compileNode .empty bagType someNumbers).runFrom .fresh =
      (.ok [("$or", .array [.object [("$and", .array
        [.object (bagWith (.single "$gte" (.ofInt64 1))),
          .object (bagWith (.single "$lte" (.ofInt64 9)))])],
        .object (bagWith (.ofInt64 12))])], .fresh) := rfl
  obtain ⟨-, -, -, -, hcompiled⟩ := keeps_value someNumbers
  exact hcompiled _ _ _ _ _ _ _ hrun rfl

/-- Simplified, the range is one leaf and the empty tree is gone. -/
example : someNumbers.simplify =
    node .or [leaf [("meta__gte", .int 1), ("meta__lte", .int 9)], leaf [("meta", .int 12)]] := rfl

end Filter

end DocumentMapper
