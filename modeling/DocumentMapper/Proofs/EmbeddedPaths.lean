import DocumentMapper.Proofs.FilterPaths

/-!
# Paths through embedded documents

A path whose segments are names goes down from a type through embedded documents to a field. It may
begin below a list of documents, which only a position would enter, and it may go on at its end.

## Main results

* `EmbeddedPath.resolve_append`: the elements of such a path are its fields, and what comes behind
  them;
* `lastList?_eq`: which list is the last one of a path;
* `pullBelow_items`: a removal below a list has the rest of its path inside the condition.
-/

namespace DocumentMapper

open Text

/-- The last field of a path that ends in one. -/
theorem terminalField?_concat (elements : List PathElement) (g : Field) :
    terminalField? (elements ++ [.field g]) = some g := by
  rw [terminalField?, List.reverse_append]
  rfl

/-- A position behind a path leaves its last field the last one. -/
theorem terminalField?_position (elements : List PathElement) (mark : String) :
    terminalField? (elements ++ [.position mark]) = terminalField? elements := by
  rw [terminalField?, List.reverse_append]
  rfl

/-- Segments that name fields, each but the last one an embedded document that has the next. -/
inductive EmbeddedPath (c : Catalog) : DocumentType → List String → List Field → Field → Prop
  | last {t : DocumentType} {s : String} {f : Field} (h : c.fieldOn t s = .ok f) :
      EmbeddedPath c t [s] [f] f
  | step {t u : DocumentType} {s : String} {segments : List String} {f g : Field}
      {fields : List Field} (h : c.fieldOn t s = .ok f) (hkind : f.kind = .embedded u)
      (hrest : EmbeddedPath c u segments fields g) :
      EmbeddedPath c t (s :: segments) (f :: fields) g

namespace EmbeddedPath

variable {c : Catalog} {t : DocumentType} {segments : List String} {fields : List Field}
  {f g : Field}

/-- A path has a first field. -/
theorem exists_cons (h : EmbeddedPath c t segments fields g) :
    ∃ s rest f others, segments = s :: rest ∧ fields = f :: others := by
  cases h with
  | last h => exact ⟨_, _, _, _, rfl, rfl⟩
  | step h hkind hrest => exact ⟨_, _, _, _, rfl, rfl⟩

/-- All fields but the last one are embedded documents. -/
theorem fields_eq (h : EmbeddedPath c t segments fields g) :
    ∃ front, fields = front ++ [g] ∧ ∀ f ∈ front, f.kind.isList = false := by
  induction h with
  | last h => exact ⟨[], rfl, nofun⟩
  | @step t u s segments f g fields h hkind hrest ih =>
    obtain ⟨front, rfl, hfront⟩ := ih
    refine ⟨f :: front, rfl, fun x hx => ?_⟩
    rcases List.mem_cons.mp hx with rfl | hx
    · rw [hkind]
      rfl
    · exact hfront x hx

theorem terminalField? (h : EmbeddedPath c t segments fields g) :
    DocumentMapper.terminalField? (fields.map .field) = some g := by
  obtain ⟨front, rfl, -⟩ := h.fields_eq
  rw [List.map_append]
  exact terminalField?_concat _ g

/-- **Below an embedded document a path leads to its fields**, and goes on from the last one. -/
theorem walk_append (h : EmbeddedPath c t segments fields g) {path : String} {more : List String}
    {elements : List PathElement} (hmore : g.walk c path more = .ok elements)
    (hkind : f.kind = .embedded t) :
    f.walk c path (segments ++ more) = .ok (fields.map .field ++ elements) := by
  have hstep : ∀ {u : DocumentType} {s : String} {f x : Field}, f.kind = .embedded u →
      c.fieldOn u s = .ok x → f.enter c path s = .ok (.field x, x) := by
    intro u s f x hkind hfield
    rw [Field.enter_eq, hkind, Kind.enter, hfield]
    rfl
  induction h generalizing f with
  | last h => exact bind_eq_ok.mpr ⟨_, hstep hkind h, bind_eq_ok.mpr ⟨_, hmore, rfl⟩⟩
  | step h hnext hrest ih =>
    exact bind_eq_ok.mpr ⟨_, hstep hkind h, bind_eq_ok.mpr ⟨_, ih hmore hnext, rfl⟩⟩

/-- A name below a list is a name below its items. -/
theorem walk_items (h : EmbeddedPath c t segments fields g) {path : String} {element : Field}
    (hlist : f.kind = .list element) (hkind : element.kind = .embedded t)
    (hmark : ∀ s ∈ segments.head?, isPositional s = false) :
    f.walk c path segments = .ok (fields.map .field) := by
  have hwalk : element.walk c path (segments ++ []) = .ok (fields.map .field ++ []) :=
    h.walk_append rfl hkind
  rw [List.append_nil, List.append_nil] at hwalk
  obtain ⟨s, rest, -, -, rfl, -⟩ := h.exists_cons
  have henter : f.enter c path s = element.enter c path s := by
    rw [Field.enter_eq, hlist, Kind.enter, if_neg (by simp [hmark s rfl])]
  rw [Field.walk, henter]
  exact hwalk

/-- **A path leads to its fields, and goes on from the last one.** -/
theorem resolve_append (h : EmbeddedPath c t segments fields g) {more : List String}
    {elements : List PathElement} (hmore : ∀ path, g.walk c path more = .ok elements) :
    c.resolve t (segments ++ more) = .ok (fields.map .field ++ elements) := by
  cases h with
  | last h => exact bind_eq_ok.mpr ⟨_, h, bind_eq_ok.mpr ⟨_, hmore _, rfl⟩⟩
  | step h hkind hrest =>
    exact bind_eq_ok.mpr ⟨_, h, bind_eq_ok.mpr ⟨_, hrest.walk_append (hmore _) hkind, rfl⟩⟩

theorem resolve (h : EmbeddedPath c t segments fields g) :
    c.resolve t segments = .ok (fields.map .field) := by
  have happend : c.resolve t (segments ++ []) = .ok (fields.map .field ++ []) :=
    h.resolve_append fun _ => rfl
  rwa [List.append_nil, List.append_nil] at happend

/-- The stored names of a path are those of its fields. -/
theorem storageNames (fields : List Field) :
    (fields.map PathElement.field).map PathElement.storageName = fields.map Field.storageName := by
  rw [List.map_map]
  rfl

end EmbeddedPath

/-! ### Removals below lists -/

section

variable {front rest : List Field} {f : Field} {operand : Json}

/-- The place of the last list, for any test that finds the lists among the elements. -/
theorem getLast?_filter_lists {isList : PathElement × Nat → Bool}
    (htest : ∀ g n, isList (.field g, n) = g.kind.isList) (hlist : f.kind.isList = true)
    (hrest : ∀ g ∈ rest, g.kind.isList = false) :
    ((((front ++ f :: rest).map .field).zipIdx.filter isList).getLast?).map Prod.snd =
      some front.length := by
  have hnone : ((rest.map PathElement.field).zipIdx (front.length + 1)).filter isList = [] := by
    refine List.filter_eq_nil_iff.mpr fun e he => ?_
    obtain ⟨e, n⟩ := e
    obtain ⟨g, hg, rfl⟩ := List.mem_map.mp (List.fst_mem_of_mem_zipIdx he)
    simp [htest, hrest g hg]
  have hfound : isList (.field f, front.length) = true := (htest f _).trans hlist
  simp [List.zipIdx_append, hfound, hnone]

/-- **The last list of a path** is the one behind which no list comes. -/
theorem lastList?_eq (front : List Field) (hlist : f.kind.isList = true)
    (hrest : ∀ g ∈ rest, g.kind.isList = false) :
    lastList? ((front ++ f :: rest).map .field) = some front.length :=
  getLast?_filter_lists (fun _ _ => rfl) hlist hrest

/-- A removal from a list that is the last of its path is rendered at the whole path. -/
theorem pullBelow_list (hlist : f.kind.isList = true) (operator : String) :
    pullBelow operator ((front ++ [f]).map .field) ((front ++ [f]).map Field.storageName) operand =
      ("$" ++ operator, [(dotted ((front ++ [f]).map Field.storageName), operand)]) := by
  have hlast : lastList? ((front ++ [f]).map .field) = some front.length :=
    lastList?_eq front hlist nofun
  have hlength : ((front ++ [f]).map Field.storageName).length = front.length + 1 := by simp
  simp only [pullBelow, hlast, ← hlength, List.take_length, List.drop_length]

/-- **A removal below a list has the rest of its path inside the condition.** -/
theorem pullBelow_items (hlist : f.kind.isList = true) (hrest : ∀ g ∈ rest, g.kind.isList = false)
    (hne : rest ≠ []) :
    pullBelow "pull" ((f :: rest).map .field) ((f :: rest).map Field.storageName) operand =
      ("$pull", [(f.storageName, nest (rest.map Field.storageName) operand)]) := by
  obtain ⟨g, others, rfl⟩ := List.exists_cons_of_ne_nil hne
  have hlast : lastList? ((f :: g :: others).map .field) = some 0 :=
    lastList?_eq [] hlist hrest
  rw [pullBelow, hlast]
  simp only [List.map_cons, List.take_succ_cons, List.take_zero, dotted_singleton,
    List.drop_succ_cons, List.drop_zero, if_neg (show ¬ "pull" = "pullAll" by decide)]

end

/-! ### Operations on names -/

/-- A path ends in a name that an operation takes for one: it is neither empty nor a comparison. -/
def EndsInField (segments : List String) : Prop :=
  ∀ last ∈ segments.getLast?, last ≠ "" ∧ last ∉ comparisonOperators

section

variable {c : Catalog} {t : DocumentType} {op path : String} {v : Value} {σ σ' : Supply}

/-- **What an operation on such a path renders.** -/
theorem compileUpdate_field_eq_ok (hop : op ∈ updateOperators) (hdec : op ≠ "dec")
    (hends : EndsInField (keywordSegments path)) {update : Object} :
    (compileUpdate c t [(op ++ "__" ++ path, v)]).runFrom σ = (.ok update, σ') ↔
      ∃ elements f operand, c.resolve t (keywordSegments path) = .ok elements ∧
        terminalField? elements = some f ∧
        (f.updateOperand (nativeOperator op) none v).runFrom σ = (.ok operand, σ') ∧
        update = [((operationBody (nativeOperator op) elements operand).1,
          .object (operationBody (nativeOperator op) elements operand).2)] := by
  have hcomparison : comparisonOf (keywordSegments path) = (none, keywordSegments path) := by
    refine comparisonOf_of_not_ends ?_
    rintro ⟨-, last, hlast, hmem⟩
    exact (hends last hlast).2 hmem
  have hescape : dropEscape (keywordSegments path) = keywordSegments path := by
    rw [dropEscape, dropLastIf_eq_none fun last hlast => by simpa using (hends last hlast).1]
  rw [compileUpdate_single_eq_ok hop]
  simp only [compileOperation_eq_ok hop, hcomparison, hescape, underComparison, operationValue,
    if_neg hdec, Drawing.runFrom_pure, Prod.mk.injEq, Except.ok.injEq]
  constructor
  · rintro ⟨operator, body, ⟨_, _, elements, f, operand, ⟨rfl, rfl⟩, hresolve, hfield, hoperand,
      hbody⟩, rfl⟩
    refine ⟨elements, f, operand, hresolve, hfield, hoperand, ?_⟩
    rw [← hbody]
  · rintro ⟨elements, f, operand, hresolve, hfield, hoperand, rfl⟩
    exact ⟨_, _, ⟨v, σ, elements, f, operand, ⟨rfl, rfl⟩, hresolve, hfield, hoperand, rfl⟩, rfl⟩

end

/-- An operator that compares no texts makes no difference to what a scalar field compares. -/
theorem Field.operand_of_not_text {f : Field} {s : Scalar} {op : String}
    (hs : f.kind = .scalar s) (hop : isTextOperator op = false) (v : Value) :
    f.operand (some op) v = if v.isNull then return .null else f.scalarOperand s v := by
  obtain ⟨name, storageName, isRequired, kind, dflt, validator⟩ := f
  obtain rfl : kind = .scalar s := hs
  cases v <;> simp [Field.operand, Kind.operand, hop]

end DocumentMapper
