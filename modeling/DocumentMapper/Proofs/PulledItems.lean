import DocumentMapper.Proofs.ArrayUpdates
import DocumentMapper.Proofs.EmbeddedPaths
import DocumentMapper.Proofs.EqualityOperands
import DocumentMapper.Proofs.EscapedNames
import DocumentMapper.Proofs.StoredTrees

/-!
# Items that a removal takes

A removal below a list of documents says which items it takes by a condition on them. The condition
has the path below the list turned inside out: an object for each name, one inside the other, and
the operand in the innermost. For a path of one name that is the filter for the same path, and the
removal takes the items that the filter finds. For a longer path it is not. A filter follows the path
and looks at nothing else on the way, while an object inside a condition is data and has to be all
that stands there.

## Main results

* `compileUpdate_pull_eq_ok`: what a removal below a list renders;
* `itemMeets_nest`, `apply_pull_nest`: the items that meet a condition turned inside out, and that
  a removal takes;
* `pull_removes`: which items a removal takes.
-/

namespace DocumentMapper

open Text

/-- A removal that asks for an operand below some names takes an item: the item is a document, and it
meets the filter for the one name, or what stands at the first of several names is all the rest. -/
def Takes (first : String) (rest : List String) (j item : Json) : Prop :=
  ∃ e : Object, item = .object e ∧
    (rest = [] → e.meets [(first, j)] = .ok true) ∧
    (rest ≠ [] → Finds (nest rest j) (e.lookup first))

section

variable {first : String} {rest : List String} {j : Json}

/-- Objects inside a condition are data. -/
theorem not_isOperators_nest (hne : rest ≠ []) (hdollar : ∀ s ∈ rest, beginsWith "$" s = false) :
    ¬ (nest rest j).IsOperators := by
  obtain ⟨s, more, rfl⟩ := List.exists_cons_of_ne_nil hne
  rintro ⟨entries, heq, hoperators⟩
  obtain rfl := Json.object.inj heq
  simp [isOperatorMap, hdollar s List.mem_cons_self] at hoperators

/-- A condition that is turned inside out is a filter for documents. -/
theorem itemMeets_nest_eq (hfirst : beginsWith "$" first = false) (item : Json) :
    itemMeets item (nest (first :: rest) j) =
      match item with
      | .object e => Object.meets e [(first, nest rest j)]
      | _ => .ok false := by
  have hcondition : isOperatorMap [(first, nest rest j)] = false := by
    simp [isOperatorMap, hfirst]
  have hnest : nest (first :: rest) j = .object [(first, nest rest j)] := rfl
  rw [hnest]
  cases item <;> simp only [itemMeets, hcondition, Bool.false_eq_true, ↓reduceIte] <;> rfl

/-- **Which items meet a condition that is turned inside out.** Only the filter for one name can fail
to answer. -/
theorem itemMeets_nest (hfirst : beginsWith "$" first = false)
    (hdollar : ∀ s ∈ rest, beginsWith "$" s = false) {item : Json}
    (hanswers : rest = [] → ∀ e : Object, item = .object e →
      ∃ b, e.meets [(first, j)] = .ok b) :
    ∃ b, itemMeets item (nest (first :: rest) j) = .ok b ∧
      (b = true ↔ Takes first rest j item) := by
  rw [itemMeets_nest_eq hfirst]
  cases item with
  | object e =>
    by_cases hne : rest = []
    · subst hne
      obtain ⟨b, hb⟩ := hanswers rfl e rfl
      refine ⟨b, hb, fun h => ⟨e, rfl, fun _ => by rw [hb, h], fun h => absurd rfl h⟩, ?_⟩
      rintro ⟨e', heq, hmeets, -⟩
      obtain rfl := Json.object.inj heq
      exact Except.ok.inj (hb.symm.trans (hmeets rfl))
    · have hdata := not_isOperators_nest (j := j) hne hdollar
      have hmeets : Object.meets e [(first, nest rest j)] =
          .ok (equalsAny (Object.lookup e first) (nest rest j)) := by
        rw [meets_single hfirst, conditionHolds_of_data hdata]
      refine ⟨_, hmeets, equalsAny_iff.trans
        ⟨fun h => ⟨e, rfl, fun h => absurd h hne, fun _ => h⟩, ?_⟩⟩
      rintro ⟨e', heq, -, hfinds⟩
      obtain rfl := Json.object.inj heq
      exact hfinds hne
  | _ =>
    refine ⟨false, rfl, nofun, ?_⟩
    rintro ⟨e, heq, -⟩
    cases heq

/-- **A removal with such a condition takes the items that it says.** -/
theorem apply_pull_nest {path : String} {doc : Object} {items : List Json}
    (hpath : "$" ∉ dottedSegments path) (hfirst : beginsWith "$" first = false)
    (hdollar : ∀ s ∈ rest, beginsWith "$" s = false)
    (hanswers : ∀ item ∈ items, rest = [] → ∀ e : Object, item = .object e →
      ∃ b, e.meets [(first, j)] = .ok b)
    (hitems : doc.getPath? path = some (.array items)) (query : Object) (inserting : Bool) :
    ∃ (doc' : Object) (taken : Json → Bool),
      doc.apply query [("$pull", .object [(path, nest (first :: rest) j)])] inserting =
        ⟨doc', none⟩ ∧
      doc'.getPath? path = some (.array (items.filter fun item => !taken item)) ∧
      ∀ item ∈ items, taken item = true ↔ Takes first rest j item := by
  let taken (item : Json) : Bool := (itemMeets item (nest (first :: rest) j)).toOption.getD false
  have hmeets : ∀ item ∈ items, itemMeets item (nest (first :: rest) j) = .ok (taken item) ∧
      (taken item = true ↔ Takes first rest j item) := by
    intro item hitem
    obtain ⟨b, hb, htakes⟩ := itemMeets_nest hfirst hdollar (hanswers item hitem)
    have htaken : taken item = b := by
      simp only [taken, hb]
      rfl
    rw [htaken]
    exact ⟨hb, htakes⟩
  obtain ⟨doc', hpull, hread⟩ := (HoldsArray.present hitems).pull "$pull"
    (itemsNotMeeting_eq_ok taken fun item hitem => (hmeets item hitem).1)
  refine ⟨doc', taken, ?_, hread, fun item hitem => (hmeets item hitem).2⟩
  rw [Object.apply_single (by decide) hpath]
  exact hpull

end

section

variable {c : Catalog} {t E : DocumentType} {L p : String} {f element g : Field} {s : Scalar}
  {fields : List Field} {v : Value} {σ σ' : Supply} {filter : Object}

/-- What a removal compares with is what a condition compares with. -/
theorem Field.updateOperand_pull (hs : g.kind = .scalar s) (v : Value) :
    g.updateOperand "pull" none v = g.operand none v := by
  have hop : isTextOperator "pull" = false := by decide
  have hpull : g.updateOperand "pull" none v = g.operand (some "pull") v := by
    cases v <;> simp [Field.updateOperand]
  rw [hpull, g.operand_of_not_text hs hop, Field.operand_scalar hs]

/-- The filter of a condition on a path through embedded documents. -/
theorem compile_embedded_eq_ok (hp : IsNamePath p)
    (hends : ∀ last ∈ (keywordSegments p).getLast?, isMatchOperator last = false)
    (hway : EmbeddedPath c E (keywordSegments p) fields g) (hs : g.kind = .scalar s) :
    (compile c E [(p, v)]).runFrom σ = (.ok filter, σ') ↔
      ∃ j, (g.operand none v).runFrom σ = (.ok j, σ') ∧
        filter = [(dotted (fields.map Field.storageName), j)] := by
  have hnames := EmbeddedPath.storageNames fields
  have hcompared : ∀ j, g.comparedNames j (fields.map Field.storageName) =
      fields.map Field.storageName :=
    fun j => Field.comparedNames_eq_self (by simp [hs]) _
  rw [compile_names_eq_ok hp.ne_rawKey (hp.read hends)]
  constructor
  · rintro ⟨elements, f, j, hresolve, hfield, hoperand, rfl⟩
    obtain rfl := Except.ok.inj (hway.resolve.symm.trans hresolve)
    obtain rfl := Option.some.inj (hway.terminalField?.symm.trans hfield)
    exact ⟨j, hoperand, by rw [hnames, hcompared]; rfl⟩
  · rintro ⟨j, hoperand, rfl⟩
    exact ⟨_, g, j, hway.resolve, hway.terminalField?, hoperand, by rw [hnames, hcompared]; rfl⟩

/-- Below a list of documents a path leads to the list, and then to its own fields. -/
theorem EmbeddedPath.resolve_items (hway : EmbeddedPath c E (keywordSegments p) fields g)
    (hf : t.field? (t.attributeOf L) = some f) (hlist : f.kind = .list element)
    (helement : element.kind = .embedded E)
    (hmark : ∀ first ∈ (keywordSegments p).head?, isPositional first = false) :
    c.resolve t (L :: keywordSegments p) = .ok ((f :: fields).map .field) :=
  bind_eq_ok.mpr ⟨f, c.fieldOn_of_field? hf,
    bind_eq_ok.mpr ⟨_, hway.walk_items hlist helement hmark, rfl⟩⟩

/-- The body of a removal below a list that no other list follows. -/
theorem operationBody_pull_items (hway : EmbeddedPath c E (keywordSegments p) fields g)
    (hlist : f.kind = .list element) (hs : g.kind = .scalar s) (j : Json) :
    operationBody "pull" ((f :: fields).map .field) j =
      ("$pull", [(f.storageName, nest (fields.map Field.storageName) j)]) := by
  obtain ⟨front, hfields, hfront⟩ := hway.fields_eq
  obtain ⟨-, -, h, others, -, hcons⟩ := hway.exists_cons
  have hpoint : hasChar '.' (dotted ((f :: fields).map Field.storageName)) = true := by
    rw [hcons, List.map_cons, List.map_cons, dotted_cons _ (List.cons_ne_nil _ _)]
    simp [hasChar]
  have hlists : ∀ x ∈ fields, x.kind.isList = false := by
    intro x hx
    rw [hfields] at hx
    rcases List.mem_append.mp hx with hx | hx
    · exact hfront x hx
    · obtain rfl := List.mem_singleton.mp hx
      rw [hs]
      rfl
  have hpull : beginsWith "pull" "pull" = true := by decide
  unfold operationBody
  simp only [EmbeddedPath.storageNames, hpoint, hpull, Bool.and_self, ↓reduceIte]
  exact pullBelow_items (by rw [hlist]; rfl) hlists (by simp [hcons])

/-- **A removal below a list renders the rest of its path inside the condition.** -/
theorem compileUpdate_pull_eq_ok (hL : TakesOperator L) (hf : t.field? (t.attributeOf L) = some f)
    (hlist : f.kind = .list element) (helement : element.kind = .embedded E) (hp : IsNamePath p)
    (hmark : ∀ first ∈ (keywordSegments p).head?, isPositional first = false)
    (hends : ∀ last ∈ (keywordSegments p).getLast?, isMatchOperator last = false)
    (hway : EmbeddedPath c E (keywordSegments p) fields g) (hs : g.kind = .scalar s)
    {update : Object} :
    (compileUpdate c t [("pull" ++ "__" ++ (L ++ "__" ++ p), v)]).runFrom σ = (.ok update, σ') ↔
      ∃ j, (g.operand none v).runFrom σ = (.ok j, σ') ∧
        update = [("$pull", .object [(f.storageName, nest (fields.map Field.storageName) j)])] := by
  have hpull : "pull" ∈ updateOperators := by decide
  have hnative : nativeOperator "pull" = "pull" := by decide
  have hsegments : keywordSegments (L ++ "__" ++ p) = L :: keywordSegments p := by
    rw [keywordSegments_append hL.takesSegments, hL.isName.keywordSegments]
    rfl
  have hlast : EndsInField (keywordSegments (L ++ "__" ++ p)) := by
    obtain ⟨first, more, hfirst⟩ := List.exists_cons_of_ne_nil (keywordSegments_ne_nil p)
    intro last hlast
    rw [hsegments, hfirst, List.getLast?_cons_cons, ← hfirst] at hlast
    have hall : ∀ op ∈ comparisonOperators, isMatchOperator op = true := by decide
    refine ⟨(hp last (List.mem_of_getLast? hlast)).1, fun hmem => ?_⟩
    have hmatch := hall last hmem
    rw [hends last hlast] at hmatch
    cases hmatch
  have hresolve := hway.resolve_items hf hlist helement hmark
  have hterminal : terminalField? ((f :: fields).map .field) = some g := by
    rw [List.map_cons, terminalField?_cons, hway.terminalField?]
    rfl
  rw [compileUpdate_field_eq_ok hpull (by decide) hlast, hsegments, hnative]
  constructor
  · rintro ⟨elements, x, j, helements, hx, hrun, rfl⟩
    obtain rfl := Except.ok.inj (hresolve.symm.trans helements)
    obtain rfl := Option.some.inj (hterminal.symm.trans hx)
    rw [Field.updateOperand_pull hs] at hrun
    exact ⟨j, hrun, by rw [operationBody_pull_items hway hlist hs]⟩
  · rintro ⟨j, hrun, rfl⟩
    rw [← Field.updateOperand_pull hs] at hrun
    exact ⟨_, g, j, hresolve, hterminal, hrun, by rw [operationBody_pull_items hway hlist hs]⟩

/-- A field has something to compare with for a value that it is for. -/
theorem Scalar.Holds.operand_yields (hs : g.kind = .scalar s) (hrule : g.validator = none)
    (hv : v.isNull = false) (h : s.Holds v) : ∃ j, (g.operand none v).Yields j := by
  rw [Field.operand_scalar hs, if_neg (by simp [hv])]
  obtain ⟨j, hj, -⟩ := h.decode_eq .empty hs hrule
  cases h with
  | @any v htree =>
    obtain ⟨i, hi, -⟩ := htree.decode_plain
    cases v with
    | list | dict => exact ⟨i, hi⟩
    | _ => exact ⟨j, hj⟩
  | geoPoint hx hy =>
    have hitems : ∀ v ∈ [_, _], Value.IsTree v := List.forall_mem_cons.mpr
      ⟨hx.isTree, List.forall_mem_singleton.mpr hy.isTree⟩
    obtain ⟨i, hi, -⟩ := (Value.IsTree.list hitems).decode_plain
    exact ⟨i, hi⟩
  | geometry _ hitems =>
    obtain ⟨i, hi, -⟩ := (Value.IsTree.list fun v hv => (hitems v hv).isTree).decode_plain
    exact ⟨i, hi⟩
  | _ => exact ⟨j, hj⟩

/-- **A removal below a list takes the items that its condition is met by**, in order. For a path of
one name these are the items that the filter for the same path finds. For a longer path they are the
items in which what stands at the first name is the rest of the path and the operand, and nothing
else. Only where operators can be given as the value of a field can the filter fail to answer. -/
theorem pull_removes (hL : TakesOperator L) (hf : t.field? (t.attributeOf L) = some f)
    (hlist : f.kind = .list element) (helement : element.kind = .embedded E)
    (hstored : "$" ∉ dottedSegments f.storageName) (hp : IsNamePath p)
    (hmark : ∀ first ∈ (keywordSegments p).head?, isPositional first = false)
    (hends : ∀ last ∈ (keywordSegments p).getLast?, isMatchOperator last = false)
    (hway : EmbeddedPath c E (keywordSegments p) fields g) (hs : g.kind = .scalar s)
    (hdollar : ∀ x ∈ fields, beginsWith "$" x.storageName = false) :
    (g.validator = none → v.isNull = false → s.Holds v →
      ∃ filter, (compile c E [(p, v)]).Yields filter) ∧
    ∀ {σ σ' : Supply} {filter : Object}, (compile c E [(p, v)]).runFrom σ = (.ok filter, σ') →
      ∃ first rest j update, fields.map Field.storageName = first :: rest ∧
        filter = [(dotted (first :: rest), j)] ∧
        (compileUpdate c t [("pull" ++ "__" ++ (L ++ "__" ++ p), v)]).runFrom σ = (.ok update, σ') ∧
        ∀ (doc query : Object) (inserting : Bool) (items : List Json),
          doc.getPath? f.storageName = some (.array items) →
          (s = .any ∨ (∃ entries, v = .dict entries) →
            ∀ e : Object, .object e ∈ items → ∃ b, e.meets filter = .ok b) →
          ∃ (doc' : Object) (taken : Json → Bool), doc.apply query update inserting = ⟨doc', none⟩ ∧
            doc'.getPath? f.storageName = some (.array (items.filter fun item => !taken item)) ∧
            ∀ item ∈ items, taken item = true ↔ Takes first rest j item := by
  constructor
  · intro hrule hv hheld
    obtain ⟨j, hj⟩ := hheld.operand_yields hs hrule hv
    exact ⟨_, fun σ => (compile_embedded_eq_ok hp hends hway hs).mpr ⟨j, hj σ, rfl⟩⟩
  intro σ σ' filter hfilter
  obtain ⟨j, hoperand, rfl⟩ := (compile_embedded_eq_ok hp hends hway hs).mp hfilter
  obtain ⟨-, -, x, others, -, hcons⟩ := hway.exists_cons
  have hupdate := (compileUpdate_pull_eq_ok hL hf hlist helement hp hmark hends hway hs).mpr
    ⟨j, hoperand, rfl⟩
  have hnames : fields.map Field.storageName =
      x.storageName :: others.map Field.storageName := by rw [hcons]; rfl
  refine ⟨_, _, j, _, hnames, by rw [hnames], hupdate, ?_⟩
  intro doc query inserting items hitems hanswers
  have hfirst : beginsWith "$" x.storageName = false := hdollar x (by simp [hcons])
  have hothers : ∀ s ∈ others.map Field.storageName, beginsWith "$" s = false := by
    intro s hs
    obtain ⟨y, hy, rfl⟩ := List.mem_map.mp hs
    exact hdollar y (by simp [hcons, hy])
  have hlast : beginsWith "$" g.storageName = false := by
    obtain ⟨front, hfields, -⟩ := hway.fields_eq
    exact hdollar g (by simp [hfields])
  have hone : ∀ item ∈ items, others.map Field.storageName = [] → ∀ e : Object, item = .object e →
      ∃ b, e.meets [(x.storageName, j)] = .ok b := by
    intro item hitem hnone e he
    by_cases hj : j.IsOperators
    · have hasks := (Field.compares_of_operand hs hoperand).asksFor hs (not_mem_connectives hlast)
      have hanswer := hanswers ((hasks.isOperators hj).imp_right fun ⟨entries, hv, _⟩ =>
        ⟨entries, hv⟩) e (he ▸ hitem)
      rwa [hnames, hnone, dotted_singleton] at hanswer
    · rw [meets_single hfirst, conditionHolds_of_data hj]
      exact ⟨_, rfl⟩
  rw [hnames]
  exact apply_pull_nest hstored hfirst hothers hone hitems query inserting

end

/-! ### Notes of essays -/

/-- Writers have a name and an age. -/
def writerType : DocumentType where
  name := "Writer"
  className := "Writer"
  collection := none
  fields := [.ofKind "name" (.scalar .string), .ofKind "age" (.scalar .int)]
  primaryKey := none
  isDynamic := false
  allowsInheritance := false
  superclass := none

/-- Notes have a writer. -/
def essayNoteType : DocumentType where
  name := "Note"
  className := "Note"
  collection := none
  fields := [.ofKind "writer" (.embedded writerType)]
  primaryKey := none
  isDynamic := false
  allowsInheritance := false
  superclass := none

/-- Essays have a list of notes. -/
def essayType : DocumentType where
  name := "Essay"
  className := "Essay"
  collection := some "essays"
  fields := [{ Field.ofKind "id" (.scalar .objectId) with storageName := idKey },
    .list "notes" (.embedded essayNoteType)]
  primaryKey := some "id"
  isDynamic := false
  allowsInheritance := false
  superclass := none

theorem essayType_built : writerType.Built ∧ essayNoteType.Built ∧ essayType.Built := by
  let writer : Declaration := .embedded "Writer"
  let note : Declaration := .embedded "Note"
  let essay : Declaration := (Declaration.document "Essay").inCollection "essays"
  exact ⟨⟨(writer.withField (.ofKind "name" (.scalar .string))).withField
      (.ofKind "age" (.scalar .int)), rfl⟩,
    ⟨note.withField (.ofKind "writer" (.embedded writerType)), rfl⟩,
    ⟨essay.withField (.list "notes" (.embedded essayNoteType)), rfl⟩⟩

/-- The fields on the way to the name of the writer of a note. -/
def writerName : List Field :=
  [.ofKind "writer" (.embedded writerType), .ofKind "name" (.scalar .string)]

theorem segments_writerName : keywordSegments "writer__name" = ["writer", "name"] := rfl

theorem isNamePath_writerName : IsNamePath "writer__name" := by
  rw [IsNamePath, segments_writerName]
  decide

theorem embeddedPath_writerName : EmbeddedPath .empty essayNoteType (keywordSegments "writer__name")
    writerName (.ofKind "name" (.scalar .string)) := by
  rw [segments_writerName]
  exact .step (u := writerType) rfl rfl (.last rfl)

theorem takesOperator_notes : TakesOperator "notes" :=
  ⟨⟨by decide +kernel, by decide⟩, by decide⟩

/-- The path to the name of the writer begins with no position and ends in no operator. -/
theorem ends_writerName :
    (∀ first ∈ (keywordSegments "writer__name").head?, isPositional first = false) ∧
      ∀ last ∈ (keywordSegments "writer__name").getLast?, isMatchOperator last = false := by
  rw [segments_writerName]
  decide

theorem compile_writerName :
    (compile .empty essayNoteType [("writer__name", .string "ann")]).runFrom .fresh =
      (.ok [("writer.name", .string "ann")], .fresh) :=
  (compile_embedded_eq_ok isNamePath_writerName ends_writerName.2 embeddedPath_writerName rfl).mpr
    ⟨_, rfl, rfl⟩

/-- A note of Ann's, with or without her age. -/
def annsNote (rest : Object) : Json :=
  .object [("writer", .object (("name", .string "ann") :: rest))]

/-- An essay with two notes of Ann's, one of which has her age. -/
def annsEssay : Object :=
  [(idKey, .string "e1"), ("notes", .array [annsNote [], annsNote [("age", .ofInt64 3)]])]

/-- Of two notes of Ann's the one without her age is taken. -/
theorem pull_removes_annsEssay : essayType.Built ∧ TakesOperator "notes" ∧
    essayType.field? (essayType.attributeOf "notes") =
      some (.list "notes" (.embedded essayNoteType)) ∧
    "$" ∉ dottedSegments "notes" ∧ IsNamePath "writer__name" ∧
    EmbeddedPath .empty essayNoteType (keywordSegments "writer__name") writerName
      (.ofKind "name" (.scalar .string)) ∧
    (∀ x ∈ writerName, beginsWith "$" x.storageName = false) ∧
    (compile .empty essayNoteType [("writer__name", .string "ann")]).runFrom .fresh =
      (.ok [("writer.name", .string "ann")], .fresh) ∧
    ∃ update, (compileUpdate .empty essayType
        [("pull" ++ "__" ++ ("notes" ++ "__" ++ "writer__name"), .string "ann")]).runFrom .fresh =
          (.ok update, .fresh) ∧
      ∃ doc', annsEssay.apply [] update false = ⟨doc', none⟩ ∧
        doc'.getPath? "notes" = some (.array [annsNote [("age", .ofInt64 3)]]) := by
  have hfield : essayType.field? (essayType.attributeOf "notes") =
      some (.list "notes" (.embedded essayNoteType)) := rfl
  have hstored : "$" ∉ dottedSegments "notes" := by decide
  have hdollar : ∀ x ∈ writerName, beginsWith "$" x.storageName = false := by decide
  refine ⟨essayType_built.2.2, takesOperator_notes, hfield, hstored, isNamePath_writerName,
    embeddedPath_writerName, hdollar, compile_writerName, ?_⟩
  obtain ⟨first, rest, j, update, hnames, hfilter, hupdate, happly⟩ :=
    (pull_removes takesOperator_notes hfield rfl rfl hstored isNamePath_writerName ends_writerName.1
      ends_writerName.2 embeddedPath_writerName rfl hdollar).2 compile_writerName
  obtain ⟨rfl, rfl⟩ : "writer" = first ∧ ["name"] = rest := List.cons.inj hnames
  obtain rfl : Json.string "ann" = j := congrArg Prod.snd (List.cons.inj hfilter).1
  obtain ⟨doc', taken, hrun, hread, htakes⟩ := happly annsEssay [] false _ rfl (by
    rintro (hany | ⟨entries, hdict⟩)
    · cases hany
    · cases hdict)
  have htaken : taken (annsNote []) = true := by
    refine (htakes _ List.mem_cons_self).mpr ⟨_, rfl, nofun, fun _ => equalsAny_iff.mp ?_⟩
    rfl
  have hkept : taken (annsNote [("age", .ofInt64 3)]) = false := by
    refine Bool.eq_false_iff.mpr fun h => ?_
    obtain ⟨e, he, -, hfinds⟩ := (htakes _ (List.mem_cons_of_mem _ List.mem_cons_self)).mp h
    obtain rfl := Json.object.inj he
    have hequal := equalsAny_iff.mpr (hfinds (List.cons_ne_nil _ _))
    revert hequal
    decide
  refine ⟨update, hupdate, doc', hrun, hread.trans ?_⟩
  simp [htaken, hkept]

/-- The other note is found by the filter for the same path, but it is not taken. -/
theorem annsNote_not_pulled : essayType.Built ∧
    (compile .empty essayNoteType [("writer__name", .string "ann")]).runFrom .fresh =
      (.ok [("writer.name", .string "ann")], .fresh) ∧
    Object.meets [("writer", .object [("name", .string "ann"), ("age", .ofInt64 3)])]
      [("writer.name", .string "ann")] = .ok true ∧
    (compileUpdate .empty essayType [("pull__notes__writer__name", .string "ann")]).runFrom .fresh =
      (.ok [("$pull", .single "notes" (nest ["writer", "name"] (.string "ann")))], .fresh) ∧
    Object.apply [("notes", .array [annsNote [("age", .ofInt64 3)]])] []
        [("$pull", .single "notes" (nest ["writer", "name"] (.string "ann")))] false =
      ⟨[("notes", .array [annsNote [("age", .ofInt64 3)]])], none⟩ := by
  have hkey : "pull__notes__writer__name" = "pull" ++ "__" ++ ("notes" ++ "__" ++ "writer__name") :=
    rfl
  refine ⟨essayType_built.2.2, compile_writerName, ?_, ?_, ?_⟩
  · rfl
  · rw [hkey]
    exact (compileUpdate_pull_eq_ok takesOperator_notes rfl rfl rfl isNamePath_writerName
      ends_writerName.1 ends_writerName.2 embeddedPath_writerName rfl).mpr ⟨_, rfl, rfl⟩
  · rfl

end DocumentMapper
