import DocumentMapper.Proofs.FilterPaths
import DocumentMapper.Proofs.KeywordConditions
import DocumentMapper.Proofs.ResolvedPaths

/-!
# Escaped names

A separator at the end of a keyword says that the last segment in front of it is a name, also where
it is spelled like an operator. An empty last segment is therefore taken off and no operator is read
in front of it. The mark of a negation is looked for afterwards, though, and one that is found is
taken off like any other: of several names the last one cannot be escaped if it is `not`.

## Main results

* `keywordSegments_append`: the segments of two keywords, one behind the other;
* `compile_names_eq_ok`: the filter of a condition whose keyword has no numbers;
* `compile_escaped_iff`: an escaped keyword asks for equality at its own path exactly when it does
  not end in `not` behind another name.
-/

namespace DocumentMapper

open Text

/-! ### Keywords one behind the other -/

/-- Whether more segments can be read behind a keyword, whose last one must not end in half of a
separator. -/
def TakesSegments (key : String) : Prop :=
  ∀ last ∈ (keywordSegments key).getLast?, last.toList.getLast? ≠ some '_'

/-- Two texts with a double underscore between them are cut for themselves, unless the first one ends
in half of one. -/
theorem splitAtUnderscores_append_append {cs : List Char}
    (h : ∀ last ∈ (splitAtUnderscores cs).getLast?, last.getLast? ≠ some '_') (ds : List Char) :
    splitAtUnderscores (cs ++ '_' :: '_' :: ds) =
      splitAtUnderscores cs ++ splitAtUnderscores ds := by
  fun_induction splitAtUnderscores cs with
  | case1 => simp [splitAtUnderscores]
  | case2 cs ih =>
    obtain ⟨part, parts, hparts⟩ := List.exists_cons_of_ne_nil (splitAtUnderscores_ne_nil cs)
    rw [List.cons_append, List.cons_append, splitAtUnderscores, ih, List.cons_append]
    intro last hlast
    exact h last (by rw [hparts] at hlast ⊢; exact hlast)
  | case3 c cs hne ih =>
    obtain ⟨part, parts, hparts⟩ := List.exists_cons_of_ne_nil (splitAtUnderscores_ne_nil cs)
    have hnext : ∀ es, c = '_' → cs ++ '_' :: '_' :: ds = '_' :: es → False := by
      rintro es rfl hes
      cases cs with
      | nil => exact h ['_'] (by simp [splitAtUnderscores, consFirst]) rfl
      | cons d cs =>
        obtain ⟨rfl, -⟩ := List.cons.inj hes
        exact hne cs rfl rfl
    rw [List.cons_append, splitAtUnderscores.eq_3 c _ hnext, ih]
    · exact consFirst_append c (splitAtUnderscores_ne_nil cs) _
    · intro last hlast
      rw [hparts] at h hlast
      cases parts with
      | nil =>
        obtain rfl : part = last := by simpa using hlast
        intro hhalf
        refine h (c :: part) rfl ?_
        cases part with
        | nil => cases hhalf
        | cons d part => exact hhalf
      | cons next parts => exact h last hlast

/-- **The segments of two keywords with a separator between them.** -/
theorem keywordSegments_append {key : String} (h : TakesSegments key) (rest : String) :
    keywordSegments (key ++ "__" ++ rest) = keywordSegments key ++ keywordSegments rest := by
  have htext : (key ++ "__" ++ rest).toList = key.toList ++ '_' :: '_' :: rest.toList := by simp
  rw [keywordSegments, htext, splitAtUnderscores_append_append, List.map_append]
  · rfl
  · intro last hlast
    have hmem : String.ofList last ∈ (keywordSegments key).getLast? := by
      rw [keywordSegments, List.getLast?_map, Option.mem_def.mp hlast]
      rfl
    simpa using h _ hmem

/-- A keyword with more segments behind it is raw only if its first segment is empty. -/
theorem TakesSegments.ne_rawKey {key : String} (h : TakesSegments key)
    (hfirst : "" ∉ keywordSegments key) (rest : String) : key ++ "__" ++ rest ≠ rawKey := by
  intro hkey
  have hsegments := keywordSegments_append h rest
  have hraw : keywordSegments rawKey = ["", "raw", ""] := by decide
  obtain ⟨first, more, hkeyword⟩ := List.exists_cons_of_ne_nil (keywordSegments_ne_nil key)
  rw [hkey, hraw, hkeyword, List.cons_append] at hsegments
  obtain ⟨rfl, -⟩ := List.cons.inj hsegments
  exact hfirst (by rw [hkeyword]; exact List.mem_cons_self)

theorem TakesOperator.takesSegments {name : String} (h : TakesOperator name) :
    TakesSegments name := by
  intro last hlast
  rw [h.isName.keywordSegments] at hlast
  obtain rfl : name = last := by simpa using hlast
  exact h.last

/-! ### Conditions without numbers -/

section

variable {c : Catalog} {t : DocumentType} {key : String} {names : List String}
  {op : Option String} {isNegated : Bool} {v : Value} {σ σ' : Supply} {filter : Object}

/-- **The filter of a condition whose keyword has no numbers**: its names are resolved, the last field
makes the operand, and the filter has the operand under its operator at the path of the names. -/
theorem compile_names_eq_ok (hraw : key ≠ rawKey)
    (hread : Keyword.read key = ⟨names, op, isNegated, []⟩) :
    (compile c t [(key, v)]).runFrom σ = (.ok filter, σ') ↔
      ∃ elements f j, c.resolve t names = .ok elements ∧ terminalField? elements = some f ∧
        (compileOperand f op v fun g => v.itemMatch c g).runFrom σ = (.ok j, σ') ∧
        filter = [(dotted (f.comparedNames j (elements.map PathElement.storageName)),
          negatedIf isNegated (underOperator op j))] :=
  compile_keyword_eq_ok hraw hread

end

/-! ### Escapes -/

/-- A keyword is a path of names: no segment is empty or a number, and none ends in half of a
separator. -/
def IsNamePath (key : String) : Prop :=
  ∀ s ∈ keywordSegments key, s ≠ "" ∧ isIndex s = false ∧ s.toList.getLast? ≠ some '_'

/-- The last of several segments is spelled like a negation. -/
def EndsInNot (segments : List String) : Prop :=
  1 < segments.length ∧ segments.getLast? = some "not"

section

variable {key : String}

theorem IsNamePath.takesSegments (h : IsNamePath key) : TakesSegments key :=
  fun last hlast => (h last (List.mem_of_getLast? hlast)).2.2

theorem IsNamePath.not_mem_empty (h : IsNamePath key) : "" ∉ keywordSegments key :=
  fun hmem => (h "" hmem).1 rfl

/-- A path of names has no numbers. -/
theorem IsNamePath.namesAmong_eq (h : IsNamePath key) :
    namesAmong (keywordSegments key) = keywordSegments key :=
  List.filter_eq_self.mpr fun s hs => by simp [(h s hs).2.1]

/-- Nothing is taken out of a path that has no numbers. -/
theorem numbersAmong_eq_nil {segments : List String} (h : namesAmong segments = segments) (i : Nat) :
    numbersAmong i segments = [] := by
  have hnone : (segments.zipIdx i).filter (fun s => isIndex s.1) = [] := by
    refine List.filter_eq_nil_iff.mpr fun s hs => ?_
    have hmem := List.mem_filter.mp (h.symm ▸ List.fst_mem_of_mem_zipIdx hs)
    simpa using hmem.2
  rw [numbersAmong, hnone]
  rfl

/-- A path of names that does not end in an operator is read as the path that it is. -/
theorem IsNamePath.read (h : IsNamePath key)
    (hends : ∀ last ∈ (keywordSegments key).getLast?, isMatchOperator last = false) :
    Keyword.read key = ⟨keywordSegments key, none, false, []⟩ := by
  have hname : EndsInName key := by
    intro last hlast
    rw [h.namesAmong_eq] at hlast
    exact ⟨hends last hlast, (h last (List.mem_of_getLast? hlast)).1⟩
  rw [Keyword.read_of_endsInName hname, h.namesAmong_eq, numbersAmong_eq_nil h.namesAmong_eq]

theorem IsNamePath.ne_rawKey (h : IsNamePath key) : key ≠ rawKey := by
  rintro rfl
  exact h.not_mem_empty (by decide)

theorem IsNamePath.escaped_ne_rawKey (h : IsNamePath key) : key ++ "__" ≠ rawKey := by
  have hne := h.takesSegments.ne_rawKey h.not_mem_empty ""
  rwa [String.append_empty] at hne

theorem IsNamePath.keywordSegments_escaped (h : IsNamePath key) :
    keywordSegments (key ++ "__") = keywordSegments key ++ [""] := by
  have happend := keywordSegments_append h.takesSegments ""
  rwa [String.append_empty] at happend

/-- What is read from an escaped keyword: no operator, but a negation where the names end in one. -/
theorem IsNamePath.read_escaped (h : IsNamePath key) :
    Keyword.read (key ++ "__") =
      match dropLastIf (· == "not") (keywordSegments key) with
      | some (_, front) => ⟨front, none, true, []⟩
      | none => ⟨keywordSegments key, none, false, []⟩ := by
  have hnames : namesAmong (keywordSegments key ++ [""]) = keywordSegments key ++ [""] := by
    rw [namesAmong, List.filter_append]
    exact congrArg (· ++ [""]) h.namesAmong_eq
  have hnumbers := numbersAmong_eq_nil hnames 0
  unfold namesAmong at hnames
  unfold numbersAmong at hnumbers
  have hoperator : dropLastIf isMatchOperator (keywordSegments key ++ [""]) = none := by
    refine dropLastIf_eq_none fun last hlast => ?_
    obtain rfl : "" = last := by simpa using hlast
    decide
  have hescape : dropEscape (keywordSegments key ++ [""]) = keywordSegments key := by
    have hpos := List.length_pos_of_ne_nil (keywordSegments_ne_nil key)
    simp [dropEscape, dropLastIf, hpos]
  simp only [Keyword.read, h.keywordSegments_escaped, hnames, hnumbers, hoperator, hescape]
  cases dropLastIf (· == "not") (keywordSegments key) <;> rfl

/-- A negation behind other names is taken off. -/
theorem IsNamePath.read_escaped_not (h : IsNamePath key) {front : List String}
    (hne : front ≠ []) (hsegments : keywordSegments key = front ++ ["not"]) :
    Keyword.read (key ++ "__") = ⟨front, none, true, []⟩ := by
  have hdrop : dropLastIf (· == "not") (front ++ ["not"]) = some ("not", front) := by
    have hpos := List.length_pos_of_ne_nil hne
    simp [dropLastIf, hpos]
  rw [h.read_escaped, hsegments, hdrop]

/-- Any other keyword is read as the path that it is. -/
theorem IsNamePath.read_escaped_of_not (h : IsNamePath key)
    (hends : ¬ EndsInNot (keywordSegments key)) :
    Keyword.read (key ++ "__") = ⟨keywordSegments key, none, false, []⟩ := by
  have hdrop : dropLastIf (· == "not") (keywordSegments key) = none := by
    unfold dropLastIf
    split
    · rename_i last hlast
      rw [if_neg]
      rintro ⟨hlength, hnot⟩
      exact hends ⟨hlength, by rw [hlast, beq_iff_eq.mp hnot]⟩
    · rfl
  rw [h.read_escaped, hdrop]

end

/-! ### Paths that go on -/

section

variable {c : Catalog} {path segment : String}

/-- A segment that is a field goes on with that field. -/
theorem Field.eq_of_enter {f g next : Field} (h : f.enter c path segment = .ok (.field g, next)) :
    next = g := by
  have henters := Field.enters_of_enter h
  generalize f.kind = kind at henters
  cases henters
  rfl

/-- No path goes on behind a reference to any type. -/
theorem Field.kind_ne_generic {f : Field} {r : PathElement × Field}
    (h : f.enter c path segment = .ok r) : f.kind ≠ .genericReference := by
  intro hkind
  rw [Field.enter_eq, hkind] at h
  cases h

/-- The last field in front of the end of a path is no reference to any type. -/
theorem Field.terminal_kind_ne_generic {front : List String} {last : String} {f g : Field}
    {es : List PathElement} {e : PathElement}
    (h : f.walk c path (front ++ [last]) = .ok (es ++ [e]))
    (hfield : terminalField? (.field f :: es) = some g) : g.kind ≠ .genericReference := by
  induction front generalizing f es with
  | nil =>
    obtain ⟨r, henter, h⟩ := bind_eq_ok.mp h
    obtain ⟨rest, hrest, h⟩ := bind_eq_ok.mp h
    obtain rfl := Except.ok.inj hrest
    obtain rfl : es = [] := by simpa using congrArg List.length (Except.ok.inj h)
    obtain rfl : f = g := by simpa [terminalField?, PathElement.asField?] using hfield
    exact kind_ne_generic henter
  | cons segment front ih =>
    obtain ⟨⟨element, next⟩, henter, h⟩ := bind_eq_ok.mp h
    obtain ⟨rest, hrest, h⟩ := bind_eq_ok.mp h
    have hlist := Except.ok.inj h
    cases es with
    | nil =>
      obtain ⟨-, rfl⟩ := List.cons.inj hlist
      have hlength := Field.length_walk hrest
      simp at hlength
    | cons first es =>
      obtain ⟨rfl, rfl⟩ := List.cons.inj hlist
      rw [terminalField?_cons, terminalField?_cons] at hfield
      cases hbelow : terminalField? es with
      | some g' =>
        refine ih hrest ?_
        rw [terminalField?_cons, hbelow]
        rw [hbelow] at hfield
        simpa using hfield
      | none =>
        rw [hbelow, Option.none_or] at hfield
        cases element with
        | field x =>
          obtain rfl : x = g := by simpa [PathElement.asField?] using hfield
          obtain rfl := Field.eq_of_enter henter
          refine ih hrest ?_
          rw [terminalField?_cons, hbelow]
          rfl
        | position mark =>
          obtain rfl : f = g := by simpa [PathElement.asField?] using hfield
          exact kind_ne_generic henter

/-- The same for a path on a type. -/
theorem Catalog.terminal_kind_ne_generic {t : DocumentType} {front : List String} {last : String}
    {g : Field} {es : List PathElement} {e : PathElement} (hfront : front ≠ [])
    (h : c.resolve t (front ++ [last]) = .ok (es ++ [e])) (hfield : terminalField? es = some g) :
    g.kind ≠ .genericReference := by
  obtain ⟨first, more, rfl⟩ := List.exists_cons_of_ne_nil hfront
  obtain ⟨f, -, h⟩ := bind_eq_ok.mp h
  obtain ⟨rest, hrest, h⟩ := bind_eq_ok.mp h
  have hlist := Except.ok.inj h
  cases es with
  | nil => cases hfield
  | cons element es =>
    obtain ⟨rfl, rfl⟩ := List.cons.inj hlist
    exact Field.terminal_kind_ne_generic hrest hfield

end

/-! ### Escaped names -/

/-- A filter asks that what stands at the path of some elements is a value. -/
def AsksEquality (elements : List PathElement) (v : Value) (σ σ' : Supply) (filter : Object) :
    Prop :=
  ∃ f j, terminalField? elements = some f ∧ (f.operand none v).runFrom σ = (.ok j, σ') ∧
    filter = [(dotted (f.comparedNames j (elements.map PathElement.storageName)), j)]

/-- What is appended to the last of some names leaves the others as they are. -/
theorem Field.comparedNames_concat (f : Field) (j : Json) (names : List String) (last : String) :
    ∃ compared, f.comparedNames j (names ++ [last]) = names ++ [compared] := by
  have hlast : ∀ suffix, suffixLast suffix (names ++ [last]) = names ++ [last ++ suffix] := by
    intro suffix
    induction names with
    | nil => rfl
    | cons name names ih =>
      rw [List.cons_append, suffixLast.eq_3 _ _ _ (by simp), ih]
      rfl
  unfold comparedNames
  split
  · exact ⟨_, hlast _⟩
  · exact ⟨last, rfl⟩

section

variable {c : Catalog} {t : DocumentType} {key : String} {v : Value} {σ σ' : Supply}
  {elements : List PathElement} {filter : Object}

/-- An escaped keyword that does not end in `not` asks for equality, or for nothing. -/
theorem compile_escaped_eq_ok (hnames : IsNamePath key)
    (hresolve : c.resolve t (keywordSegments key) = .ok elements)
    (hends : ¬ EndsInNot (keywordSegments key)) :
    (compile c t [(key ++ "__", v)]).runFrom σ = (.ok filter, σ') ↔
      AsksEquality elements v σ σ' filter := by
  rw [compile_names_eq_ok hnames.escaped_ne_rawKey (hnames.read_escaped_of_not hends)]
  constructor
  · rintro ⟨es, f, j, hes, hfield, hoperand, rfl⟩
    obtain rfl := Except.ok.inj (hresolve.symm.trans hes)
    exact ⟨f, j, hfield, hoperand, rfl⟩
  · rintro ⟨f, j, hfield, hoperand, rfl⟩
    exact ⟨elements, f, j, hresolve, hfield, hoperand, rfl⟩

/-- An escaped keyword that ends in `not` is a negation above its path. -/
theorem compile_escaped_not {front : List String} (hnames : IsNamePath key) (hfront : front ≠ [])
    (hsegments : keywordSegments key = front ++ ["not"])
    (hresolve : c.resolve t (keywordSegments key) = .ok elements)
    (hrun : (compile c t [(key ++ "__", v)]).runFrom σ = (.ok filter, σ')) :
    ∃ es e f j, elements = es ++ [e] ∧ terminalField? es = some f ∧
      (f.operand none v).runFrom σ = (.ok j, σ') ∧
      filter = [(storagePath es, .single "$not" j)] := by
  obtain ⟨es, f, j, hes, hfield, hoperand, rfl⟩ :=
    (compile_names_eq_ok hnames.escaped_ne_rawKey
      (hnames.read_escaped_not hfront hsegments)).mp hrun
  rw [hsegments] at hresolve
  obtain ⟨es', e, rfl, hes'⟩ := Catalog.resolve_concat hfront hresolve
  obtain rfl := Except.ok.inj (hes.symm.trans hes')
  have hkind := Catalog.terminal_kind_ne_generic hfront hresolve hfield
  refine ⟨es, e, f, j, rfl, hfield, hoperand, ?_⟩
  rw [Field.comparedNames_eq_self fun hgeneric => absurd hgeneric hkind]
  rfl

/-- **An escaped keyword asks for equality at its own path exactly when it does not end in `not`
behind another name.** -/
theorem compile_escaped_iff (hnames : IsNamePath key)
    (hresolve : c.resolve t (keywordSegments key) = .ok elements)
    (hrun : (compile c t [(key ++ "__", v)]).runFrom σ = (.ok filter, σ')) :
    AsksEquality elements v σ σ' filter ↔ ¬ EndsInNot (keywordSegments key) := by
  constructor
  · rintro ⟨f, j, -, -, hfilter⟩ ⟨hlength, hlast⟩
    obtain ⟨front, hsegments⟩ := List.getLast?_eq_some_iff.mp hlast
    have hfront : front ≠ [] := by
      rintro rfl
      rw [hsegments] at hlength
      simp at hlength
    obtain ⟨es, e, g, i, rfl, hfield, -, hnegated⟩ :=
      compile_escaped_not hnames hfront hsegments hresolve hrun
    obtain ⟨compared, hcompared⟩ :=
      f.comparedNames_concat j (es.map PathElement.storageName) e.storageName
    rw [hnegated, List.map_append, List.map_singleton, hcompared] at hfilter
    have hnil : es.map PathElement.storageName ≠ [] := by
      intro hnil
      rw [List.map_eq_nil_iff.mp hnil] at hfield
      cases hfield
    have hlonger := length_dotted_lt hnil compared
    obtain ⟨hpath, -⟩ := Prod.mk.inj (List.cons.inj hfilter).1
    rw [← hpath, storagePath] at hlonger
    exact absurd hlonger (Nat.lt_irrefl _)
  · exact fun hends => (compile_escaped_eq_ok hnames hresolve hends).mp hrun

end

/-! ### Labels of parcels -/

/-- Labels have a size, and a note of what a parcel must not be. -/
def labelType : DocumentType where
  name := "Label"
  className := "Label"
  collection := none
  fields := [.ofKind "size" (.scalar .int), .ofKind "not" (.scalar .string)]
  primaryKey := none
  isDynamic := false
  allowsInheritance := false
  superclass := none

/-- Parcels have a label. -/
def parcelType : DocumentType where
  name := "Parcel"
  className := "Parcel"
  collection := some "parcels"
  fields := [{ Field.ofKind "id" (.scalar .objectId) with storageName := idKey },
    .ofKind "label" (.embedded labelType)]
  primaryKey := some "id"
  isDynamic := false
  allowsInheritance := false
  superclass := none

theorem parcelType_built : labelType.Built ∧ parcelType.Built := by
  let label : Declaration := .embedded "Label"
  let parcel : Declaration := (Declaration.document "Parcel").inCollection "parcels"
  exact ⟨⟨(label.withField (.ofKind "size" (.scalar .int))).withField
    (.ofKind "not" (.scalar .string)), rfl⟩,
    ⟨parcel.withField (.ofKind "label" (.embedded labelType)), rfl⟩⟩

/-- The path to a field of a label. -/
def onLabel (name : String) (s : Scalar) : List PathElement :=
  [.field (.ofKind "label" (.embedded labelType)), .field (.ofKind name (.scalar s))]

theorem segments_onLabel : keywordSegments "label__size" = ["label", "size"] ∧
    keywordSegments "label__not" = ["label", "not"] :=
  ⟨rfl, rfl⟩

theorem isNamePath_onLabel : IsNamePath "label__size" ∧ IsNamePath "label__not" := by
  rw [IsNamePath, IsNamePath, segments_onLabel.1, segments_onLabel.2]
  decide

theorem resolve_onLabel :
    Catalog.empty.resolve parcelType (keywordSegments "label__size") = .ok (onLabel "size" .int) ∧
      Catalog.empty.resolve parcelType (keywordSegments "label__not") =
        .ok (onLabel "not" .string) := by
  rw [segments_onLabel.1, segments_onLabel.2]
  exact ⟨rfl, rfl⟩

/-- The size of a label is escaped. -/
theorem compile_escaped_iff_labelSize :
    IsNamePath "label__size" ∧
      Catalog.empty.resolve parcelType (keywordSegments "label__size") = .ok (onLabel "size" .int) ∧
      ∃ filter, (compile .empty parcelType [("label__size__", .int 3)]).runFrom .fresh =
          (.ok filter, .fresh) ∧
        AsksEquality (onLabel "size" .int) (.int 3) .fresh .fresh filter := by
  have hends : ¬ EndsInNot (keywordSegments "label__size") := by
    rw [segments_onLabel.1, EndsInNot]
    decide
  have hrun : (compile .empty parcelType [("label__size" ++ "__", .int 3)]).runFrom .fresh =
      (.ok [("label.size", .ofInt64 3)], .fresh) :=
    (compile_escaped_eq_ok isNamePath_onLabel.1 resolve_onLabel.1 hends).mpr
      ⟨_, _, rfl, rfl, rfl⟩
  exact ⟨isNamePath_onLabel.1, resolve_onLabel.1, _, hrun,
    (compile_escaped_iff isNamePath_onLabel.1 resolve_onLabel.1 hrun).mpr hends⟩

/-- The note of what a parcel must not be cannot be escaped: the label as a whole is asked not to be
the note. -/
theorem labelNot_not_escaped :
    parcelType.Built ∧ IsNamePath "label__not" ∧
      Catalog.empty.resolve parcelType (keywordSegments "label__not") =
        .ok (onLabel "not" .string) ∧
      ∃ filter, (compile .empty parcelType [("label__not__", .string "bent")]).runFrom .fresh =
          (.ok filter, .fresh) ∧
        filter = [("label", .single "$not" (.string "bent"))] ∧
        ¬ AsksEquality (onLabel "not" .string) (.string "bent") .fresh .fresh filter := by
  have hread : Keyword.read "label__not__" = ⟨["label"], none, true, []⟩ :=
    isNamePath_onLabel.2.read_escaped_not (List.cons_ne_nil "label" []) rfl
  have hrun : (compile .empty parcelType [("label__not__", .string "bent")]).runFrom .fresh =
      (.ok [("label", .single "$not" (.string "bent"))], .fresh) :=
    (compile_names_eq_ok (by decide) hread).mpr
      ⟨[.field (.ofKind "label" (.embedded labelType))], _, _, rfl, rfl, rfl, rfl⟩
  refine ⟨parcelType_built.2, isNamePath_onLabel.2, resolve_onLabel.2, _, hrun, rfl, ?_⟩
  rintro ⟨f, j, hfield, hoperand, hfilter⟩
  obtain rfl := Option.some.inj hfield
  cases hoperand
  cases (Prod.mk.inj (List.cons.inj hfilter).1).2

end DocumentMapper
