import DocumentMapper.Proofs.KeywordConditions

/-!
# Where a filter looks

An update resolves the path of an operation as it stands. A filter takes the numbers out of the
path of a condition first, resolves the names that are left, and puts the numbers back to their
places. It may thereby come to another path in the store: a number can be a name, the key of a dict
for example, and then the segments behind it are resolved below something else.

Where numbers and marks only stand for positions this cannot happen. Without the numbers the way
down a path stays a few lists behind the full one, and below a list a segment that is no position
belongs to the items (`Kind.Around`).

## Main results

* `reinsert_numbersAmong`: numbers that were taken out are put back between the names;
* `Catalog.resolve_namesAmong`: where numbers and marks are positions, the names that are left
  resolve to the elements that are left;
* `compile_path_iff`: a filter looks at the path of its condition exactly when the path is stored
  alike with and without its numbers.
-/

namespace DocumentMapper

open Text

/-! ### Taking numbers out and putting them back -/

/-- The segments that are no numbers. -/
def namesAmong (segments : List String) : List String :=
  segments.filter fun s => !isIndex s

/-- The segments that are numbers with their places, the first of which is `i`. -/
def numbersAmong (i : Nat) (segments : List String) : List (Nat × String) :=
  ((segments.zipIdx i).filter fun s => isIndex s.1).map fun s => (s.2, s.1)

/-- Names in the places of the segments that are no numbers. -/
def weave : List String → List String → List String
  | [], names => names
  | segment :: rest, names =>
    if isIndex segment then segment :: weave rest names
    else
      match names with
      | [] => []
      | name :: names => name :: weave rest names

theorem weave_number {segment : String} (h : isIndex segment = true) (rest names : List String) :
    weave (segment :: rest) names = segment :: weave rest names := by
  simp [weave, h]

theorem weave_name {segment : String} (h : ¬ isIndex segment = true) (rest : List String)
    (name : String) (names : List String) :
    weave (segment :: rest) (name :: names) = name :: weave rest names := by
  simp [weave, h]

@[simp] theorem namesAmong_cons (segment : String) (rest : List String) :
    namesAmong (segment :: rest) =
      if isIndex segment then namesAmong rest else segment :: namesAmong rest := by
  by_cases h : isIndex segment = true <;> simp [namesAmong, h]

theorem numbersAmong_cons (i : Nat) (segment : String) (rest : List String) :
    numbersAmong i (segment :: rest) =
      if isIndex segment then (i, segment) :: numbersAmong (i + 1) rest
      else numbersAmong (i + 1) rest := by
  by_cases h : isIndex segment = true <;> simp [numbersAmong, h]

/-- **Numbers that were taken out are put back between the names.** The induction goes on behind the
segments that are in place already. -/
theorem reinsert_numbersAmong {segments names : List String} (front : List String)
    (h : names.length = (namesAmong segments).length) :
    reinsert (numbersAmong front.length segments) (front ++ names) =
      front ++ weave segments names := by
  induction segments generalizing front names with
  | nil =>
    obtain rfl : names = [] := List.length_eq_zero_iff.mp h
    simp [reinsert, numbersAmong, weave]
  | cons segment rest ih =>
    rw [namesAmong_cons] at h
    rw [numbersAmong_cons]
    by_cases hindex : isIndex segment = true
    · rw [if_pos hindex] at h ⊢
      have hnext := ih (front ++ [segment]) h
      simp only [List.length_append, List.length_cons, List.length_nil, Nat.zero_add,
        List.append_assoc, List.cons_append, List.nil_append] at hnext
      simp only [reinsert, List.foldl_cons, List.take_left, List.drop_left]
      rw [weave_number hindex]
      exact hnext
    · rw [if_neg hindex] at h ⊢
      cases names with
      | nil => simp at h
      | cons name names =>
        have hnext := ih (front ++ [name]) (by simpa using h)
        simp only [List.length_append, List.length_cons, List.length_nil, Nat.zero_add,
          List.append_assoc, List.cons_append, List.nil_append] at hnext
        rw [weave_name hindex]
        exact hnext

theorem length_weave {segments names : List String}
    (h : names.length = (namesAmong segments).length) :
    (weave segments names).length = segments.length := by
  induction segments generalizing names with
  | nil => simpa [weave, namesAmong] using h
  | cons segment rest ih =>
    rw [namesAmong_cons] at h
    by_cases hindex : isIndex segment = true
    · rw [if_pos hindex] at h
      simp [weave_number hindex, ih h]
    · rw [if_neg hindex] at h
      cases names with
      | nil => simp at h
      | cons name names => simp [weave_name hindex, ih (by simpa using h)]

/-! ### Stored alike -/

/-- The elements of the segments that are no numbers. -/
def elementsAmong (segments : List String) (elements : List PathElement) : List PathElement :=
  ((segments.zip elements).filter fun e => !isIndex e.1).map Prod.snd

@[simp] theorem elementsAmong_cons (segment : String) (rest : List String) (e : PathElement)
    (es : List PathElement) :
    elementsAmong (segment :: rest) (e :: es) =
      if isIndex segment then elementsAmong rest es else e :: elementsAmong rest es := by
  by_cases h : isIndex segment = true <;> simp [elementsAmong, h]

/-- Every number of a path is stored as it is spelled. -/
def NumbersKept (segments : List String) (elements : List PathElement) : Prop :=
  ∀ e ∈ segments.zip elements, isIndex e.1 = true → e.2.storageName = e.1

/-- Names are woven into the stored path exactly when they are the stored names and the numbers are
stored as they are spelled. -/
theorem weave_eq_iff {segments names : List String} {elements : List PathElement}
    (hlength : elements.length = segments.length)
    (hnames : names.length = (namesAmong segments).length) :
    weave segments names = elements.map PathElement.storageName ↔
      NumbersKept segments elements ∧
        names = (elementsAmong segments elements).map PathElement.storageName := by
  induction segments generalizing names elements with
  | nil =>
    obtain rfl : elements = [] := List.length_eq_zero_iff.mp hlength
    simp [weave, NumbersKept, elementsAmong]
  | cons segment rest ih =>
    obtain ⟨e, es, rfl⟩ := List.exists_cons_of_length_eq_add_one hlength
    have hlength' : es.length = rest.length := by simpa using hlength
    rw [namesAmong_cons] at hnames
    have hkept : NumbersKept (segment :: rest) (e :: es) ↔
        (isIndex segment = true → e.storageName = segment) ∧ NumbersKept rest es := by
      simp [NumbersKept]
    rw [hkept, elementsAmong_cons]
    by_cases hindex : isIndex segment = true
    · rw [if_pos hindex] at hnames ⊢
      rw [weave_number hindex, List.map_cons, List.cons.injEq, ih hlength' hnames,
        eq_comm, and_assoc]
      simp [hindex]
    · rw [if_neg hindex] at hnames ⊢
      cases names with
      | nil => simp at hnames
      | cons name names =>
        rw [weave_name hindex, List.map_cons, List.cons.injEq,
          ih hlength' (by simpa using hnames)]
        simp [hindex, and_left_comm]

/-- Parts as many as the segments that they are made of are these segments. -/
theorem eq_of_flatMap_dottedSegments {parts segments : List String}
    (h : parts.flatMap dottedSegments = segments) (hlength : parts.length = segments.length) :
    parts = segments := by
  have hle : ∀ ps : List String, ps.length ≤ (ps.flatMap dottedSegments).length := by
    intro ps
    induction ps with
    | nil => simp
    | cons p ps ih =>
      have hp := List.length_pos_of_ne_nil (dottedSegments_ne_nil p)
      simp only [List.flatMap_cons, List.length_append, List.length_cons]
      omega
  induction parts generalizing segments with
  | nil => simpa using h
  | cons p ps ih =>
    obtain ⟨first, more, hfirst⟩ := List.exists_cons_of_ne_nil (dottedSegments_ne_nil p)
    have hmore : more = [] := by
      have hrest := hle ps
      have hsum := congrArg List.length h
      simp only [List.flatMap_cons, hfirst, List.length_append, List.length_cons] at hsum hlength
      exact List.length_eq_zero_iff.mp (by omega)
    subst hmore
    have hp : p = first := by rw [← dotted_dottedSegments p, hfirst, dotted_singleton]
    rw [List.flatMap_cons, hfirst, List.singleton_append] at h
    cases segments with
    | nil => simp at h
    | cons s segments =>
      obtain ⟨rfl, hrest⟩ := List.cons.inj h
      rw [hp, ih hrest (by simpa using hlength)]

/-- Two paths of as many names are the same path only if their names are, provided that those of one
of them have no point. -/
theorem eq_of_dotted_eq {parts segments : List String} (hlength : parts.length = segments.length)
    (hsegments : ∀ s ∈ segments, IsSegment s) (h : dotted parts = dotted segments) :
    parts = segments := by
  by_cases hnil : segments = []
  · subst hnil
    exact List.length_eq_zero_iff.mp hlength
  · have hparts : parts ≠ [] := by
      rintro rfl
      exact hnil (List.length_eq_zero_iff.mp hlength.symm)
    refine eq_of_flatMap_dottedSegments ?_ hlength
    rw [← dottedSegments_dotted_parts hparts, h, dottedSegments_dotted hnil hsegments]

/-- Each segment below a field has one element. -/
theorem Field.length_walk {c : Catalog} {path : String} {segments : List String} {f : Field}
    {elements : List PathElement} (h : f.walk c path segments = .ok elements) :
    elements.length = segments.length := by
  induction segments generalizing f elements with
  | nil =>
    obtain rfl := Except.ok.inj h
    rfl
  | cons segment rest ih =>
    obtain ⟨r, -, h⟩ := bind_eq_ok.mp h
    obtain ⟨es, hes, h⟩ := bind_eq_ok.mp h
    obtain rfl := Except.ok.inj h
    rw [List.length_cons, ih hes, List.length_cons]

/-- Each segment of a path has one element. -/
theorem Catalog.length_resolve {c : Catalog} {t : DocumentType} {segments : List String}
    {elements : List PathElement} (h : c.resolve t segments = .ok elements) :
    elements.length = segments.length := by
  cases segments with
  | nil =>
    obtain rfl := Except.ok.inj h
    rfl
  | cons segment rest =>
    obtain ⟨f, -, h⟩ := bind_eq_ok.mp h
    obtain ⟨es, hes, h⟩ := bind_eq_ok.mp h
    obtain rfl := Except.ok.inj h
    rw [List.length_cons, Field.length_walk hes, List.length_cons]

/-! ### Ways without numbers -/

/-- A kind is the other one or, at some depth, a list of it. -/
inductive Kind.Around : Kind → Kind → Prop
  | same (kind : Kind) : Around kind kind
  | list {element : Field} {kind : Kind} (h : element.kind.Around kind) :
      Around (.list element) kind

/-- What is around a list is around its items. -/
theorem Kind.Around.items {kind : Kind} {element : Field} (h : kind.Around (.list element)) :
    kind.Around element.kind := by
  generalize hlist : Kind.list element = inner at h
  induction h with
  | same kind =>
    subst hlist
    exact .list (.same _)
  | list _ ih => exact .list (ih hlist)

theorem isPositional_of_isIndex {segment : String} (h : isIndex segment = true) :
    isPositional segment = true := by
  simp [isPositional, h]

theorem positionSegment_of_isIndex {segment : String} (h : isIndex segment = true) :
    positionSegment segment = segment := by
  unfold positionSegment
  split
  · rename_i hmark
    rw [hmark] at h
    exact absurd h (by decide)
  · rfl

section

variable {c : Catalog} {path segment : String}

theorem Field.enter_eq (c : Catalog) (path segment : String) (f : Field) :
    f.enter c path segment = f.kind.enter c path segment f.name := by
  cases f
  rfl

/-- A name is the same below a field as below lists of such fields. -/
theorem Kind.enter_around {kind inner : Kind} (h : kind.Around inner)
    (hpositional : isPositional segment = false) {name : String} {r : PathElement × Field}
    (henter : inner.enter c path segment name = .ok r) (quoted other : String) :
    kind.enter c quoted segment other = .ok r := by
  induction h generalizing other with
  | same kind =>
    have hquoted := Kind.enter_eq_ok c quoted segment name henter
    have hindex : ¬ isIndex segment = true := fun h => by
      rw [isPositional_of_isIndex h] at hpositional
      cases hpositional
    cases kind with
    | scalar s =>
      cases s with
      | any =>
        simp only [Kind.enter, if_neg hindex] at hquoted ⊢
        exact hquoted
      | _ => cases hquoted
    | _ => exact hquoted
  | @list element _ _ ih =>
    rw [Kind.enter, if_neg (by simp [hpositional]), Field.enter_eq]
    exact ih henter element.name

/-- A position is one below a list or below a field that holds anything. -/
theorem Kind.enter_position {kind : Kind} {name mark : String} {next : Field}
    (hpositional : isPositional segment = true)
    (h : kind.enter c path segment name = .ok (.position mark, next)) :
    mark = positionSegment segment ∧
      (kind = .list next ∨ kind = .scalar .any ∧ isIndex segment = true ∧ next = .any name) := by
  cases kind with
  | list element =>
    rw [Kind.enter, if_pos hpositional] at h
    obtain ⟨hmark, rfl⟩ := Prod.mk.inj (Except.ok.inj h)
    exact ⟨(PathElement.position.inj hmark).symm, .inl rfl⟩
  | scalar s =>
    cases s with
    | any =>
      simp only [Kind.enter] at h
      split at h
      · rename_i hindex
        obtain ⟨hmark, rfl⟩ := Prod.mk.inj (Except.ok.inj h)
        rw [positionSegment_of_isIndex hindex]
        exact ⟨(PathElement.position.inj hmark).symm, .inr ⟨rfl, hindex, rfl⟩⟩
      · cases (Prod.mk.inj (Except.ok.inj h)).1
    | _ => cases h
  | embedded t =>
    simp only [Kind.enter] at h
    cases hfield : c.fieldOn t segment <;> rw [hfield] at h <;> cases h
  | reference _ => cases h
  | genericReference => cases h
  | dict element => cases h

end

/-- Numbers and marks of a path only stand for positions. -/
def OnlyPositions (segments : List String) (elements : List PathElement) : Prop :=
  ∀ e ∈ segments.zip elements, isPositional e.1 = true → ∃ mark, e.2 = .position mark

/-- **Without its numbers a way leads over the elements that are left**, as long as numbers and marks
are positions. It starts a few lists behind the full way, or at the same place. -/
theorem Field.walk_namesAmong {c : Catalog} {path : String} {segments : List String} {f g : Field}
    {elements : List PathElement} (h : f.walk c path segments = .ok elements)
    (hpositions : OnlyPositions segments elements) (haround : g.kind.Around f.kind)
    (quoted : String) :
    g.walk c quoted (namesAmong segments) = .ok (elementsAmong segments elements) := by
  induction segments generalizing f g elements with
  | nil =>
    obtain rfl := Except.ok.inj h
    rfl
  | cons segment rest ih =>
    obtain ⟨⟨e, next⟩, henter, h⟩ := bind_eq_ok.mp h
    obtain ⟨es, hes, h⟩ := bind_eq_ok.mp h
    obtain rfl := Except.ok.inj h
    have hrest : OnlyPositions rest es := fun e he => hpositions e (List.mem_cons_of_mem _ he)
    rw [Field.enter_eq] at henter
    rw [namesAmong_cons, elementsAmong_cons]
    by_cases hpositional : isPositional segment = true
    · obtain ⟨mark, hmark⟩ := hpositions (segment, e) List.mem_cons_self hpositional
      obtain rfl : e = .position mark := hmark
      obtain ⟨rfl, hlist | ⟨hany, hindex, rfl⟩⟩ := Kind.enter_position hpositional henter
      · by_cases hindex : isIndex segment = true
        · rw [if_pos hindex, if_pos hindex]
          exact ih hes hrest (hlist ▸ haround).items
        · -- A mark is a position below the list that is there, whichever it is.
          rw [if_neg hindex, if_neg hindex]
          obtain ⟨element, hkind, helement⟩ : ∃ element, g.kind = .list element ∧
              element.kind.Around next.kind := by
            rw [hlist] at haround
            cases hg : g.kind with
            | list element =>
              rw [hg] at haround
              cases haround with
              | same => exact ⟨_, rfl, .same _⟩
              | list h => exact ⟨_, rfl, h.items⟩
            | _ =>
              rw [hg] at haround
              cases haround
          have hwalk := ih hes hrest helement
          have hstep : g.enter c quoted segment =
              .ok (.position (positionSegment segment), element) := by
            rw [Field.enter_eq, hkind, Kind.enter, if_pos hpositional]
            rfl
          exact bind_eq_ok.mpr ⟨_, hstep, bind_eq_ok.mpr ⟨_, hwalk, rfl⟩⟩
      · rw [if_pos hindex, if_pos hindex]
        refine ih hes hrest ?_
        rw [hany] at haround
        exact haround
    · have hindex : ¬ isIndex segment = true := fun h => hpositional (isPositional_of_isIndex h)
      rw [if_neg hindex, if_neg hindex]
      have hstep : g.enter c quoted segment = .ok (e, next) := by
        rw [Field.enter_eq]
        exact Kind.enter_around haround (by simpa using hpositional) henter quoted g.name
      exact bind_eq_ok.mpr ⟨_, hstep, bind_eq_ok.mpr ⟨_, ih hes hrest (.same _), rfl⟩⟩

/-- **Where numbers and marks are positions, the names that are left resolve to the elements that are
left.** -/
theorem Catalog.resolve_namesAmong {c : Catalog} {t : DocumentType} {segments : List String}
    {elements : List PathElement} (h : c.resolve t segments = .ok elements)
    (hpositions : OnlyPositions segments elements) :
    c.resolve t (namesAmong segments) = .ok (elementsAmong segments elements) := by
  cases segments with
  | nil =>
    obtain rfl := Except.ok.inj h
    rfl
  | cons segment rest =>
    obtain ⟨f, hfield, h⟩ := bind_eq_ok.mp h
    obtain ⟨es, hes, h⟩ := bind_eq_ok.mp h
    obtain rfl := Except.ok.inj h
    have hindex : ¬ isIndex segment = true := fun hindex => by
      obtain ⟨mark, hmark⟩ :=
        hpositions (segment, .field f) List.mem_cons_self (isPositional_of_isIndex hindex)
      cases hmark
    rw [namesAmong_cons, elementsAmong_cons, if_neg hindex, if_neg hindex]
    have hwalk := Field.walk_namesAmong hes (fun e he => hpositions e (List.mem_cons_of_mem _ he))
      (.same _) (joinStrings "__" (segment :: namesAmong rest))
    exact bind_eq_ok.mpr ⟨f, hfield, bind_eq_ok.mpr ⟨_, hwalk, rfl⟩⟩

/-! ### Conditions on a path -/

theorem dropLastIf_eq_none {p : String → Bool} {parts : List String}
    (h : ∀ last ∈ parts.getLast?, p last = false) : dropLastIf p parts = none := by
  unfold dropLastIf
  split
  · rename_i last hlast
    rw [if_neg]
    simp [h last hlast]
  · rfl

/-- A keyword ends in a name: its last segment that is no number is neither an operator nor an
escape. -/
def EndsInName (key : String) : Prop :=
  ∀ last ∈ (namesAmong (keywordSegments key)).getLast?, isMatchOperator last = false ∧ last ≠ ""

/-- What is read from a keyword that ends in a name. -/
theorem Keyword.read_of_endsInName {key : String} (h : EndsInName key) :
    Keyword.read key = ⟨namesAmong (keywordSegments key), none, false,
      numbersAmong 0 (keywordSegments key)⟩ := by
  have hoperator := dropLastIf_eq_none (p := isMatchOperator) fun last hlast => (h last hlast).1
  have hescape := dropLastIf_eq_none (p := String.isEmpty)
    fun last hlast => by simpa using (h last hlast).2
  have hnot : dropLastIf (· == "not") (namesAmong (keywordSegments key)) = none :=
    dropLastIf_eq_none fun last hlast => by
      refine beq_eq_false_iff_ne.mpr ?_
      rintro rfl
      exact absurd (h "not" hlast).1 (by decide)
  unfold namesAmong at hoperator hescape hnot
  simp only [Keyword.read, hoperator, dropEscape, hescape, hnot]
  rfl

theorem length_suffixLast (suffix : String) (names : List String) :
    (suffixLast suffix names).length = names.length := by
  fun_induction suffixLast suffix names with
  | case1 => rfl
  | case2 last => rfl
  | case3 name rest h ih => simp [ih]

theorem Field.length_comparedNames (f : Field) (condition : Json) (names : List String) :
    (f.comparedNames condition names).length = names.length := by
  unfold comparedNames
  split
  · exact length_suffixLast _ names
  · rfl

section

variable {c : Catalog} {t : DocumentType} {key : String} {v : Value} {s s' : Supply}

/-- **The filter of a condition whose keyword ends in a name**: the names without the numbers are
resolved, the last field makes the operand, and the numbers are put back. -/
theorem compile_endsInName_eq_ok (hends : EndsInName key) {filter : Object} :
    (compile c t [(key, v)]).runFrom s = (.ok filter, s') ↔
      ∃ stripped f condition, c.resolve t (namesAmong (keywordSegments key)) = .ok stripped ∧
        terminalField? stripped = some f ∧ (f.operand none v).runFrom s = (.ok condition, s') ∧
        filter = [(dotted (weave (keywordSegments key)
          (f.comparedNames condition (stripped.map PathElement.storageName))), condition)] := by
  have hraw : key ≠ rawKey := by
    rintro rfl
    exact (hends "" (by decide)).2 rfl
  have hpath : ∀ {stripped f} {condition : Json},
      c.resolve t (namesAmong (keywordSegments key)) = .ok stripped →
      reinsert (numbersAmong 0 (keywordSegments key))
        (Field.comparedNames f condition (stripped.map PathElement.storageName)) =
          weave (keywordSegments key)
            (f.comparedNames condition (stripped.map PathElement.storageName)) := by
    intro stripped f condition hresolve
    refine reinsert_numbersAmong [] ((f.length_comparedNames condition _).trans ?_)
    rw [List.length_map, Catalog.length_resolve hresolve]
  rw [compile_keyword_eq_ok hraw (Keyword.read_of_endsInName hends)]
  refine exists_congr fun stripped => exists_congr fun f => exists_congr fun condition =>
    and_congr_right fun hresolve => ?_
  rw [hpath hresolve]
  rfl

/-- A keyword that ends in a name ends neither in a comparison nor in an escape. -/
theorem EndsInName.path_kept (hends : EndsInName key) :
    comparisonOf (keywordSegments key) = (none, keywordSegments key) ∧
      dropEscape (keywordSegments key) = keywordSegments key := by
  have hlast : ∀ last ∈ (keywordSegments key).getLast?, isIndex last = false →
      isMatchOperator last = false ∧ last ≠ "" := by
    intro last hlast hindex
    obtain ⟨front, hfront⟩ := List.getLast?_eq_some_iff.mp (Option.mem_def.mp hlast)
    refine hends last ?_
    rw [hfront, namesAmong, List.filter_append]
    simp [hindex]
  refine ⟨comparisonOf_of_not_ends ?_, ?_⟩
  · rintro ⟨-, last, hmem, hop⟩
    have hall : ∀ op ∈ comparisonOperators, isIndex op = false ∧ isMatchOperator op = true := by
      decide
    obtain ⟨hindex, hmatch⟩ := hall last hop
    rw [(hlast last hmem hindex).1] at hmatch
    cases hmatch
  · have hnone : dropLastIf String.isEmpty (keywordSegments key) = none := by
      refine dropLastIf_eq_none fun last hmem => ?_
      by_contra hempty
      obtain rfl : last = "" := by simpa using hempty
      exact (hlast "" hmem (by decide)).2 rfl
    rw [dropEscape, hnone]

/-- **An operation on such a path writes at the path as it stands.** -/
theorem compileUpdate_set_eq_ok (hends : EndsInName key) {update : Object} :
    (compileUpdate c t [("set__" ++ key, v)]).runFrom s = (.ok update, s') ↔
      ∃ elements f operand, c.resolve t (keywordSegments key) = .ok elements ∧
        terminalField? elements = some f ∧
        (f.updateOperand "set" none v).runFrom s = (.ok operand, s') ∧
        update = [("$set", .object [(storagePath elements, operand)])] := by
  have hset : "set" ∈ updateOperators := by decide
  have hremoval : ¬ IsRemoval "set" := by simp [IsRemoval]
  have hplace : ∀ elements, ¬ (IsInsertion "set" ∧ EndsInNumber elements) := by
    simp [IsInsertion]
  have hkey : "set__" ++ key = "set" ++ "__" ++ key := rfl
  have hnative : nativeOperator "set" = "set" := by decide
  rw [hkey, compileUpdate_single_eq_ok hset]
  simp only [compileOperation_eq_ok hset, hends.path_kept.1, hends.path_kept.2]
  constructor
  · rintro ⟨operator, body, ⟨v', u, elements, f, operand, hvalue, hresolve, hfield, hoperand,
      hbody⟩, rfl⟩
    rw [operationBody_eq hset hremoval (hplace elements)] at hbody
    obtain ⟨rfl, rfl⟩ := Prod.mk.inj hbody
    obtain ⟨rfl, rfl⟩ : v = v' ∧ s = u := by simpa [operationValue] using hvalue
    rw [hnative] at hoperand
    exact ⟨elements, f, operand, hresolve, hfield, hoperand, rfl⟩
  · rintro ⟨elements, f, operand, hresolve, hfield, hoperand, rfl⟩
    refine ⟨"$set", [(storagePath elements, operand)],
      ⟨v, s, elements, f, operand, rfl, hresolve, hfield, ?_, ?_⟩, rfl⟩
    · rw [hnative]
      exact hoperand
    · rw [operationBody_eq hset hremoval (hplace elements)]
      rfl

end

/-! ### Paths stored alike -/

/-- A path is stored alike with and without its numbers: the numbers are stored as they are spelled,
and the names that are left resolve to the same stored names, none of them a generic reference of
which a part is compared. -/
structure StoredAlike (c : Catalog) (t : DocumentType) (segments : List String)
    (elements : List PathElement) (condition : Json) : Prop where
  numbers : NumbersKept segments elements
  names : ∃ stripped f, c.resolve t (namesAmong segments) = .ok stripped ∧
    terminalField? stripped = some f ∧
    stripped.map PathElement.storageName =
      (elementsAmong segments elements).map PathElement.storageName ∧
    (f.kind = .genericReference → genericSuffix condition = "")

/-- Names that no part was appended to. -/
theorem Field.comparedNames_eq_self {f : Field} {condition : Json}
    (h : f.kind = .genericReference → genericSuffix condition = "") (names : List String) :
    f.comparedNames condition names = names := by
  unfold comparedNames
  split
  · rename_i hkind
    rw [h hkind]
    fun_induction suffixLast "" names with
    | case1 => rfl
    | case2 last => simp
    | case3 name rest hrest ih => rw [ih]
  · rfl

theorem mem_suffixLast (suffix : String) {names : List String} (h : names ≠ []) :
    ∃ name, name ++ suffix ∈ suffixLast suffix names := by
  fun_induction suffixLast suffix names with
  | case1 => exact absurd rfl h
  | case2 last => exact ⟨last, List.mem_singleton_self _⟩
  | case3 name rest hrest ih =>
    have hne : rest ≠ [] := fun hnil => hrest hnil
    obtain ⟨last, hlast⟩ := ih hne
    exact ⟨last, List.mem_cons_of_mem _ hlast⟩

/-- An appended part brings a point into the names. -/
theorem Field.genericSuffix_of_isSegment {f : Field} {condition : Json} {names : List String}
    (hne : names ≠ []) (h : ∀ s ∈ f.comparedNames condition names, IsSegment s)
    (hkind : f.kind = .genericReference) : genericSuffix condition = "" := by
  by_contra hsuffix
  have hpoint : '.' ∈ (genericSuffix condition).toList := by
    revert hsuffix
    unfold genericSuffix
    split
    · split <;> simp
    all_goals simp
  simp only [comparedNames, hkind] at h
  obtain ⟨name, hname⟩ := mem_suffixLast (genericSuffix condition) hne
  refine h _ hname ?_
  rw [String.toList_append]
  exact List.mem_append_right _ hpoint

/-- The last field is the last one behind the first element, or the first element. -/
theorem terminalField?_cons (e : PathElement) (rest : List PathElement) :
    terminalField? (e :: rest) = (terminalField? rest).or e.asField? := by
  simp only [terminalField?, List.reverse_cons, List.findSome?_append]
  cases e <;> simp [PathElement.asField?]

/-- Without positions for numbers a path has the same last field. -/
theorem terminalField?_elementsAmong {segments : List String} {elements : List PathElement}
    (hlength : elements.length = segments.length) (hpositions : OnlyPositions segments elements) :
    terminalField? (elementsAmong segments elements) = terminalField? elements := by
  induction segments generalizing elements with
  | nil =>
    obtain rfl := List.length_eq_zero_iff.mp hlength
    rfl
  | cons segment rest ih =>
    obtain ⟨e, es, rfl⟩ := List.exists_cons_of_length_eq_add_one hlength
    have hrest := ih (by simpa using hlength) fun e he => hpositions e (List.mem_cons_of_mem _ he)
    rw [elementsAmong_cons, terminalField?_cons e es, ← hrest]
    split
    · rename_i hindex
      obtain ⟨mark, hmark⟩ :=
        hpositions (segment, e) List.mem_cons_self (isPositional_of_isIndex hindex)
      obtain rfl : e = .position mark := hmark
      simp [PathElement.asField?]
    · rw [terminalField?_cons]

/-- A number that is a position is stored as it is spelled. -/
theorem Field.numbersKept_walk {c : Catalog} {path : String} {segments : List String} {f : Field}
    {elements : List PathElement} (h : f.walk c path segments = .ok elements)
    (hpositions : OnlyPositions segments elements) : NumbersKept segments elements := by
  induction segments generalizing f elements with
  | nil => simp [NumbersKept]
  | cons segment rest ih =>
    obtain ⟨⟨e, next⟩, henter, h⟩ := bind_eq_ok.mp h
    obtain ⟨es, hes, h⟩ := bind_eq_ok.mp h
    obtain rfl := Except.ok.inj h
    have hrest := ih hes fun e he => hpositions e (List.mem_cons_of_mem _ he)
    intro pair hpair hindex
    rcases List.mem_cons.mp hpair with rfl | hpair
    · have hpositional := isPositional_of_isIndex hindex
      obtain ⟨mark, hmark⟩ := hpositions (segment, e) List.mem_cons_self hpositional
      obtain rfl : e = .position mark := hmark
      rw [Field.enter_eq] at henter
      rw [(Kind.enter_position hpositional henter).1]
      exact positionSegment_of_isIndex hindex
    · exact hrest pair hpair hindex

/-- **A path whose numbers and marks are positions is stored alike** with and without its numbers. -/
theorem storedAlike_of_onlyPositions {c : Catalog} {t : DocumentType} {segments : List String}
    {elements : List PathElement} {f : Field} (h : c.resolve t segments = .ok elements)
    (hpositions : OnlyPositions segments elements) (hfield : terminalField? elements = some f)
    (hkind : f.kind ≠ .genericReference) (condition : Json) :
    StoredAlike c t segments elements condition := by
  have hnumbers : NumbersKept segments elements := by
    cases segments with
    | nil => simp [NumbersKept]
    | cons segment rest =>
      obtain ⟨first, -, h⟩ := bind_eq_ok.mp h
      obtain ⟨es, hes, h⟩ := bind_eq_ok.mp h
      obtain rfl := Except.ok.inj h
      have hrest := Field.numbersKept_walk hes fun e he =>
        hpositions e (List.mem_cons_of_mem _ he)
      intro pair hpair hindex
      rcases List.mem_cons.mp hpair with rfl | hpair
      · obtain ⟨mark, hmark⟩ := hpositions (segment, .field first) List.mem_cons_self
          (isPositional_of_isIndex hindex)
        cases hmark
      · exact hrest pair hpair hindex
  refine ⟨hnumbers, _, f, Catalog.resolve_namesAmong h hpositions, ?_, rfl, fun hgeneric => ?_⟩
  · rw [terminalField?_elementsAmong (Catalog.length_resolve h) hpositions, hfield]
  · exact absurd hgeneric hkind

/-! ### The path of a filter -/

section

variable {c : Catalog} {t : DocumentType} {key : String} {v : Value} {s s' : Supply}

/-- **A filter looks where the path of its condition leads, as far as the path is stored alike with
and without its numbers.** It does if numbers and marks are positions, and where no stored name has
a point, it does only if the path is stored alike. An update writes where the path leads in any
case. -/
theorem compile_path_iff {elements : List PathElement} {f : Field} {filter : Object}
    (hends : EndsInName key) (helements : c.resolve t (keywordSegments key) = .ok elements)
    (hfield : terminalField? elements = some f) (hkind : f.kind ≠ .genericReference)
    (hrun : (compile c t [(key, v)]).runFrom s = (.ok filter, s')) :
    ∃ path condition, filter = [(path, condition)] ∧
      (OnlyPositions (keywordSegments key) elements → path = storagePath elements) ∧
      (StoredAlike c t (keywordSegments key) elements condition → path = storagePath elements) ∧
      ((∀ e ∈ elements, IsSegment e.storageName) → path = storagePath elements →
        StoredAlike c t (keywordSegments key) elements condition) ∧
      ∀ update u u', (compileUpdate c t [("set__" ++ key, v)]).runFrom u = (.ok update, u') →
        ∃ operand, update = [("$set", .object [(storagePath elements, operand)])] := by
  obtain ⟨stripped, g, condition, hstripped, hlast, -, rfl⟩ := (compile_endsInName_eq_ok hends).mp hrun
  have hlength := Catalog.length_resolve helements
  have hnames : (g.comparedNames condition (stripped.map PathElement.storageName)).length =
      (namesAmong (keywordSegments key)).length := by
    rw [g.length_comparedNames, List.length_map, Catalog.length_resolve hstripped]
  have hiff := weave_eq_iff hlength hnames
  have halike : StoredAlike c t (keywordSegments key) elements condition →
      dotted (weave (keywordSegments key)
        (g.comparedNames condition (stripped.map PathElement.storageName))) =
          storagePath elements := by
    rintro ⟨hnumbers, stripped', g', hstripped', hlast', hsame, hgeneric⟩
    obtain rfl := Except.ok.inj (hstripped.symm.trans hstripped')
    obtain rfl := Option.some.inj (hlast.symm.trans hlast')
    rw [hiff.mpr ⟨hnumbers, (Field.comparedNames_eq_self hgeneric _).trans hsame⟩]
    rfl
  refine ⟨_, condition, rfl, fun hpositions => ?_, halike, fun hsegments hpath => ?_,
    fun update u u' hupdate => ?_⟩
  · exact halike (storedAlike_of_onlyPositions helements hpositions hfield hkind condition)
  · have hsegments' : ∀ s ∈ elements.map PathElement.storageName, IsSegment s := by
      simpa using hsegments
    have hweave := eq_of_dotted_eq (by rw [length_weave hnames, List.length_map, hlength])
      hsegments' hpath
    obtain ⟨hnumbers, hsame⟩ := hiff.mp hweave
    have hne : stripped.map PathElement.storageName ≠ [] := by
      intro hnil
      rw [List.map_eq_nil_iff.mp hnil] at hlast
      cases hlast
    have hgeneric : g.kind = .genericReference → genericSuffix condition = "" := by
      refine Field.genericSuffix_of_isSegment hne fun s hs => ?_
      rw [hsame] at hs
      obtain ⟨e, he, rfl⟩ := List.mem_map.mp hs
      refine hsegments e ?_
      obtain ⟨pair, hpair, rfl⟩ := List.mem_map.mp he
      exact (List.of_mem_zip (List.mem_filter.mp hpair).1).2
    rw [Field.comparedNames_eq_self hgeneric] at hsame
    exact ⟨hnumbers, stripped, g, hstripped, hlast, hsame, hgeneric⟩
  · obtain ⟨es, g', operand, hes, -, -, rfl⟩ := (compileUpdate_set_eq_ok hends).mp hupdate
    obtain rfl := Except.ok.inj (helements.symm.trans hes)
    exact ⟨operand, rfl⟩

end

/-! ### Marks of boxes and of shelves -/

/-- The path to the first mark on a box. -/
def firstMark : List PathElement :=
  dimsMarks ++ [.position "0"]

theorem segments_firstMark : keywordSegments "dims__marks__0" = ["dims", "marks", "0"] := rfl

theorem namesAmong_firstMark : namesAmong ["dims", "marks", "0"] = ["dims", "marks"] := by
  decide

theorem endsInName_firstMark : EndsInName "dims__marks__0" := by
  rw [EndsInName, segments_firstMark, namesAmong_firstMark]
  intro last hlast
  obtain rfl : "marks" = last := by simpa using hlast
  exact ⟨by decide, by decide⟩

theorem compile_firstMark :
    (compile .empty boxType [("dims__marks__0", .int 7)]).runFrom .fresh =
      (.ok [("dims.m.0", .ofInt64 7)], .fresh) := by
  refine (compile_endsInName_eq_ok endsInName_firstMark).mpr
    ⟨dimsMarks, marksField, .ofInt64 7, ?_, rfl, rfl, ?_⟩
  · rw [segments_firstMark, namesAmong_firstMark]
    rfl
  · rw [segments_firstMark]
    rfl

theorem compile_path_iff_firstMark :
    EndsInName "dims__marks__0" ∧
      Catalog.empty.resolve boxType (keywordSegments "dims__marks__0") = .ok firstMark ∧
      terminalField? firstMark = some marksField ∧ marksField.kind ≠ .genericReference ∧
      ∃ filter, (compile .empty boxType [("dims__marks__0", .int 7)]).runFrom .fresh =
        (.ok filter, .fresh) ∧ ∃ path condition, filter = [(path, condition)] ∧
          path = storagePath firstMark := by
  have helements : Catalog.empty.resolve boxType (keywordSegments "dims__marks__0") =
      .ok firstMark := by
    rw [segments_firstMark]
    rfl
  have hkind : marksField.kind ≠ .genericReference := nofun
  have hpositions : OnlyPositions (keywordSegments "dims__marks__0") firstMark := by
    rw [segments_firstMark]
    have hnames : isPositional "dims" = false ∧ isPositional "marks" = false := by decide
    intro e he hpositional
    simp only [firstMark, dimsMarks, List.cons_append, List.nil_append, List.zip_cons_cons,
      List.zip_nil_right, List.mem_cons, List.not_mem_nil, or_false] at he
    rcases he with rfl | rfl | rfl
    · exact absurd hpositional (by simp [hnames.1])
    · exact absurd hpositional (by simp [hnames.2])
    · exact ⟨"0", rfl⟩
  obtain ⟨path, condition, hfilter, hpath, -⟩ :=
    compile_path_iff endsInName_firstMark helements rfl hkind compile_firstMark
  exact ⟨endsInName_firstMark, helements, rfl, hkind, _, compile_firstMark, path, condition,
    hfilter, hpath hpositions⟩

/-- Pallets have boxes by their numbers, which are described by their dimensions. -/
def palletType : DocumentType where
  name := "Pallet"
  className := "Pallet"
  collection := some "pallets"
  fields := [{ Field.ofKind "id" (.scalar .objectId) with storageName := idKey },
    .dict "boxes" (.embedded dimensionsType)]
  primaryKey := some "id"
  isDynamic := false
  allowsInheritance := false
  superclass := none

theorem palletType_built : palletType.Built := by
  let plain : Declaration := (Declaration.document "Pallet").inCollection "pallets"
  exact ⟨plain.withField (.dict "boxes" (.embedded dimensionsType)), rfl⟩

/-- The number of a box on a pallet is a name. Without it the marks are taken for another box, and
the filter looks at a path that is never stored. -/
theorem boxMarks_not_agreed : palletType.Built ∧ EndsInName "boxes__2__marks" ∧
    ∃ elements f filter update, Catalog.empty.resolve palletType
        (keywordSegments "boxes__2__marks") = .ok elements ∧
      terminalField? elements = some f ∧ f.kind ≠ .genericReference ∧
      (compile .empty palletType [("boxes__2__marks", .int 7)]).runFrom .fresh =
        (.ok filter, .fresh) ∧
      filter = [("boxes.2.marks", .ofInt64 7)] ∧ "boxes.2.marks" ≠ storagePath elements ∧
      (compileUpdate .empty palletType [("set__boxes__2__marks", .int 7)]).runFrom .fresh =
        (.ok update, .fresh) ∧
      update = [("$set", .object [(storagePath elements, .ofInt64 7)])] := by
  have hsegments : keywordSegments "boxes__2__marks" = ["boxes", "2", "marks"] := rfl
  have hnames : namesAmong ["boxes", "2", "marks"] = ["boxes", "marks"] := by decide
  have hends : EndsInName "boxes__2__marks" := by
    rw [EndsInName, hsegments, hnames]
    intro last hlast
    obtain rfl : "marks" = last := by simpa using hlast
    exact ⟨by decide, by decide⟩
  have hcompile : (compile .empty palletType [("boxes__2__marks", .int 7)]).runFrom .fresh =
      (.ok [("boxes.2.marks", .ofInt64 7)], .fresh) := by
    refine (compile_endsInName_eq_ok hends).mpr
      ⟨[.field (.dict "boxes" (.embedded dimensionsType)),
        .field (.ofKind "marks" (.embedded dimensionsType))], _, .ofInt64 7, ?_, rfl, rfl, ?_⟩
    · rw [hsegments, hnames]
      rfl
    · rw [hsegments]
      rfl
  have hresolve : Catalog.empty.resolve palletType (keywordSegments "boxes__2__marks") =
      .ok [.field (.dict "boxes" (.embedded dimensionsType)),
        .field (.ofKind "2" (.embedded dimensionsType)), .field marksField] := by
    rw [hsegments]
    rfl
  have hupdate : (compileUpdate .empty palletType [("set__boxes__2__marks", .int 7)]).runFrom
      .fresh = (.ok [("$set", .object [("boxes.2.m", .ofInt64 7)])], .fresh) :=
    (compileUpdate_set_eq_ok hends).mpr ⟨_, _, _, hresolve, rfl, rfl, rfl⟩
  exact ⟨palletType_built, hends, _, marksField, _, _, hresolve, rfl, nofun, hcompile, rfl, by decide,
    hupdate, rfl⟩

end DocumentMapper
