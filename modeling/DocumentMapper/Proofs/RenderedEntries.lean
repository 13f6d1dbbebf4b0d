import DocumentMapper.Proofs.EntryOrder
import DocumentMapper.Proofs.WrittenPaths

/-!
# The entries of rendered operations

An operation is rendered as one entry of an update: at the path of its elements, or, for a removal
below a list, at the path of that list. Operations that are rendered together are grouped by
operator, and as long as no two of them have the same operator and path, the update has the entries
of all of them.

## Main results

* `compileOperation_renders`: the entry of one operation;
* `entriesOf_addOperation`: one more operation adds its entry to an update;
* `compileOperations_merges`: an update of several operations has all their entries, in some order;
* `Object.applyOperators_eq_actAll`: applying an update is applying its entries.
-/

namespace DocumentMapper

open Text

/-! ### Where operations are rendered -/

instance (op : String) : Decidable (IsRemoval op) :=
  inferInstanceAs (Decidable (_ ∨ _))

/-- The operator of a keyword and the elements that its path resolves to. -/
def resolvedOperation? (c : Catalog) (t : DocumentType) (key : String) :
    Option (String × List PathElement) :=
  match keywordSegments key with
  | [] => none
  | op :: segments =>
    (c.resolve t (dropEscape (comparisonOf segments).2)).toOption.map fun elements => (op, elements)

/-- How many elements a removal goes down: to the last list, or to the first element where there is
no list. -/
def listDepth (elements : List PathElement) : Nat :=
  match lastList? elements with
  | some i => i + 1
  | none => 1

/-- The path at which an operation is rendered. A removal that goes on below a list is rendered at
the list. -/
def renderedPath (op : String) (elements : List PathElement) : String :=
  if IsRemoval op ∧ hasChar '.' (storagePath elements) then
    dotted ((elements.map PathElement.storageName).take (listDepth elements))
  else storagePath elements

/-- A path has names only: no segment is a number or stands for a position. -/
def NamesOnly (path : String) : Prop :=
  ∀ s ∈ dottedSegments path, position? s = none ∧ isIndex s = false ∧ s ≠ "$"

/-- A path has names only if its segments are names. -/
theorem NamesOnly.of_segments {path : String} (segments : List String)
    (hpath : dottedSegments path = segments)
    (h : ∀ s ∈ segments, position? s = none ∧ isIndex s = false ∧ s ≠ "$") : NamesOnly path := by
  unfold NamesOnly
  rwa [hpath]

/-- The entry of an operation is rendered where it should be, or as a removal from a list above. -/
structure RendersAt (op : String) (elements : List PathElement) (e : UpdateEntry) : Prop where
  operator : beginsWith "$" e.operator = true
  keepsName : op ≠ "rename" → e.operator ≠ "$rename"
  path : e.path = renderedPath op elements
  above : e.path = storagePath elements ∨
    e.operator = "$pull" ∧ isAbove e.path (storagePath elements) = true

section

variable {op : String} {elements : List PathElement}

/-- A path of names does not end in a number. -/
theorem NamesOnly.not_endsInNumber (helements : elements ≠ [])
    (h : NamesOnly (storagePath elements)) : ¬ EndsInNumber elements := by
  rintro ⟨last, hlast, hindex⟩
  have hmem : last ∈ elements.map PathElement.storageName :=
    List.mem_of_getLast? (Option.mem_def.mp hlast)
  have hsegment : IsSegment last := by
    intro hpoint
    have hdigits : ∀ c ∈ last.toList, c.isDigit = true := by
      simp only [isIndex, isDigits, Bool.and_eq_true, List.all_eq_true] at hindex
      exact hindex.2
    exact absurd (hdigits '.' hpoint) (by decide)
  have hin : last ∈ dottedSegments (storagePath elements) := by
    rw [storagePath, dottedSegments_dotted_parts (by simpa using helements)]
    exact List.mem_flatMap.mpr ⟨last, hmem, by simp [dottedSegments_of_isSegment hsegment]⟩
  rw [(h last hin).2.1] at hindex
  cases hindex

/-- A removal that goes on below a list has a condition on the items of the list. -/
theorem pullBelow_eq (helements : elements ≠ []) (operator : String) (operand : Json) :
    ∃ j, pullBelow operator elements (elements.map PathElement.storageName) operand =
      (if (elements.map PathElement.storageName).drop (listDepth elements) = [] then "$" ++ operator
        else "$pull",
        [(dotted ((elements.map PathElement.storageName).take (listDepth elements)), j)]) := by
  unfold pullBelow listDepth
  cases lastList? elements with
  | some i =>
    simp only
    cases (elements.map PathElement.storageName).drop (i + 1) with
    | nil => exact ⟨operand, rfl⟩
    | cons s rest => exact ⟨_, rfl⟩
  | none =>
    obtain ⟨e, rest, rfl⟩ := List.exists_cons_of_ne_nil helements
    simp only [List.map_cons, List.take_succ_cons, List.take_zero, List.drop_succ_cons,
      List.drop_zero, dotted_singleton]
    cases rest.map PathElement.storageName with
    | nil => exact ⟨operand, rfl⟩
    | cons s rest => exact ⟨_, rfl⟩

/-- The operators of operations are known by their first character, and one of them renames. -/
theorem updateOperator_spec (hop : op ∈ updateOperators) :
    beginsWith "$" (updateOperator op) = true ∧
      (op ≠ "rename" → updateOperator op ≠ "$rename") := by
  have hall : ∀ op ∈ updateOperators, beginsWith "$" (updateOperator op) = true ∧
      (op ≠ "rename" → updateOperator op ≠ "$rename") := by
    decide
  exact hall op hop

/-- The operators of removals are known by their first characters. -/
theorem isRemoval_spec (hremoval : IsRemoval op) :
    beginsWith "pull" (nativeOperator op) = true ∧
      updateOperator op = "$" ++ nativeOperator op := by
  rcases hremoval with rfl | rfl <;> decide

/-- An operation that does not remove items below a list is rendered at the path of its elements. -/
theorem operationBody_at_storagePath (hop : op ∈ updateOperators)
    (hnumber : ¬ EndsInNumber elements)
    (hbelow : ¬ (IsRemoval op ∧ hasChar '.' (storagePath elements))) (operand : Json) :
    ∃ j, operationBody (nativeOperator op) elements operand =
      (updateOperator op, [(storagePath elements, j)]) := by
  by_cases hremoval : IsRemoval op
  · have hpoint : hasChar '.' (storagePath elements) = false := by
      simpa using fun h => hbelow ⟨hremoval, h⟩
    unfold storagePath at hpoint
    refine ⟨operand, ?_⟩
    rcases hremoval with rfl | rfl <;>
      simp [operationBody, hpoint, nativeOperator, updateOperator, storagePath]
  · exact ⟨_, operationBody_eq hop hremoval fun h => hnumber h.2⟩

/-- The first stored names are those of a path above, unless they are all of them. -/
theorem isAbove_dotted_take {names : List String} {n : Nat} (hn : n ≠ 0)
    (hdrop : names.drop n ≠ []) : isAbove (dotted (names.take n)) (dotted names) = true := by
  have hne : names ≠ [] := by
    rintro rfl
    simp at hdrop
  have htake : names.take n ≠ [] := by simp [hn, hne]
  refine isAbove_iff.mpr ⟨(names.drop n).flatMap dottedSegments, ?_, ?_⟩
  · obtain ⟨s, rest, hrest⟩ := List.exists_cons_of_ne_nil hdrop
    rw [hrest, List.flatMap_cons]
    exact List.append_ne_nil_of_left_ne_nil (dottedSegments_ne_nil s) _
  · rw [dottedSegments_dotted_parts hne, dottedSegments_dotted_parts htake, ← List.flatMap_append,
      List.take_append_drop]

/-- **An operation on a path of names is rendered as one entry.** -/
theorem operationBody_renders (hop : op ∈ updateOperators) (helements : elements ≠ [])
    (hnames : NamesOnly (storagePath elements)) (operand : Json) :
    ∃ e : UpdateEntry, operationBody (nativeOperator op) elements operand =
      (e.operator, [(e.path, e.operand)]) ∧ RendersAt op elements e := by
  obtain ⟨hbegins, hkeeps⟩ := updateOperator_spec hop
  by_cases hbelow : IsRemoval op ∧ hasChar '.' (storagePath elements)
  · obtain ⟨hpull, hupdate⟩ := isRemoval_spec hbelow.1
    obtain ⟨j, hbody⟩ := pullBelow_eq helements (nativeOperator op) operand
    have hpoint := hbelow.2
    have hrendered : renderedPath op elements =
        dotted ((elements.map PathElement.storageName).take (listDepth elements)) := if_pos hbelow
    rw [← hrendered, ← hupdate] at hbody
    have hoperation : operationBody (nativeOperator op) elements operand =
        pullBelow (nativeOperator op) elements (elements.map PathElement.storageName) operand := by
      unfold storagePath at hpoint
      simp [operationBody, hpull, hpoint]
    by_cases hdrop : (elements.map PathElement.storageName).drop (listDepth elements) = []
    · rw [if_pos hdrop] at hbody
      have hpath : renderedPath op elements = storagePath elements := by
        rw [hrendered, List.take_of_length_le (List.drop_eq_nil_iff.mp hdrop)]
        rfl
      exact ⟨⟨updateOperator op, renderedPath op elements, j⟩, hoperation.trans hbody,
        ⟨hbegins, hkeeps, rfl, .inl hpath⟩⟩
    · rw [if_neg hdrop] at hbody
      have hdepth : listDepth elements ≠ 0 := by
        unfold listDepth
        split <;> simp
      have habove : isAbove (renderedPath op elements) (storagePath elements) = true := by
        rw [hrendered]
        exact isAbove_dotted_take hdepth hdrop
      have hpull : beginsWith "$" "$pull" = true := by decide
      have hname : "$pull" ≠ "$rename" := by decide
      exact ⟨⟨"$pull", renderedPath op elements, j⟩, hoperation.trans hbody,
        ⟨hpull, fun _ => hname, rfl, .inr ⟨rfl, habove⟩⟩⟩
  · obtain ⟨j, hbody⟩ := operationBody_at_storagePath hop
      (hnames.not_endsInNumber helements) hbelow operand
    exact ⟨⟨updateOperator op, storagePath elements, j⟩, hbody,
      ⟨hbegins, hkeeps, (if_neg hbelow).symm, .inl rfl⟩⟩

/-- The first segment of a keyword is its operator, the others resolve to its elements. -/
theorem resolvedOperation?_of_segments {c : Catalog} {t : DocumentType} {key : String}
    {segments : List String} (hsegments : keywordSegments key = op :: segments)
    (hresolve : c.resolve t (dropEscape (comparisonOf segments).2) = .ok elements) :
    resolvedOperation? c t key = some (op, elements) := by
  unfold resolvedOperation?
  rw [hsegments]
  simp only [hresolve]
  rfl

/-- What an operation renders has the operator of its keyword and the elements of its path. -/
theorem compileOperation_resolved {c : Catalog} {t : DocumentType} {key : String} {v : Value}
    {s s' : Supply} {result : String × Object}
    (h : (compileOperation c t key v).runFrom s = (.ok result, s')) :
    ∃ op elements operand, resolvedOperation? c t key = some (op, elements) ∧
      op ∈ updateOperators ∧ elements ≠ [] ∧
      result = operationBody (nativeOperator op) elements operand := by
  have hkeyword : ∃ op first more, keywordSegments key = op :: first :: more ∧
      op ∈ updateOperators := by
    unfold compileOperation at h
    split at h
    · rename_i op first more hsegments
      split at h
      · simp [compileOperation.refuse, refuseQuery] at h
      · rename_i hop
        exact ⟨op, first, more, hsegments, by simpa using hop⟩
    · simp [compileOperation.refuse, refuseQuery] at h
  obtain ⟨op, first, more, hsegments, hop⟩ := hkeyword
  rw [compileOperation_of_segments hop hsegments] at h
  obtain ⟨v', u, -, hrest⟩ := Drawing.runFrom_bind_eq_ok.mp h
  obtain ⟨elements, f, operand, hresolve, hfield, -, hresult⟩ := runFrom_lastField_eq_ok.mp hrest
  have helements : elements ≠ [] := by
    rintro rfl
    cases hfield
  exact ⟨op, elements, _, resolvedOperation?_of_segments hsegments hresolve, hop, helements, hresult⟩

/-- **What one operation renders** on a path of names: one entry. -/
theorem compileOperation_renders {c : Catalog} {t : DocumentType} {key : String} {v : Value}
    {s s' : Supply} {result : String × Object}
    (hnames : ∀ op elements, resolvedOperation? c t key = some (op, elements) →
      NamesOnly (storagePath elements))
    (h : (compileOperation c t key v).runFrom s = (.ok result, s')) :
    ∃ op elements, resolvedOperation? c t key = some (op, elements) ∧ ∃ e : UpdateEntry,
      result = (e.operator, [(e.path, e.operand)]) ∧ RendersAt op elements e := by
  obtain ⟨op, elements, operand, hresolved, hop, helements, hresult⟩ := compileOperation_resolved h
  obtain ⟨e, hbody, hrenders⟩ :=
    operationBody_renders hop helements (hnames op elements hresolved) operand
  exact ⟨op, elements, hresolved, e, hresult.trans hbody, hrenders⟩

end

/-! ### The entries of an update -/

/-- The entries of an update document, operator by operator. -/
def entriesOf (update : Object) : List UpdateEntry :=
  update.flatMap fun e => (e.2.asObject?.getD []).map fun p => ⟨e.1, p.1, p.2⟩

/-- Every operator of an update is one, and has a body. -/
def IsUpdate (update : Object) : Prop :=
  ∀ e ∈ update, beginsWith "$" e.1 = true ∧ ∃ body, e.2 = .object body

section

variable {update : Object} {op path : String} {operand : Json}

/-- An operation of an operator that is there already is added to its body. -/
theorem addOperation_same (body more : Object) :
    addOperation ((op, .object body) :: update) op more =
      (op, .object (Entries.insertAll body more)) :: update := by
  simp [addOperation, Entries.get?, Entries.insert]

/-- An operation of another operator leaves the first operator alone. -/
theorem addOperation_other {other : String} (hne : other ≠ op) (j : Json) (more : Object) :
    addOperation ((other, j) :: update) op more = (other, j) :: addOperation update op more := by
  simp only [addOperation, Entries.get?, hne, ↓reduceIte, Entries.insert]
  split <;> rfl

/-- The entries of an update whose first operator has a body. -/
theorem entriesOf_cons (body : Object) :
    entriesOf ((op, .object body) :: update) =
      body.map (fun p => ⟨op, p.1, p.2⟩) ++ entriesOf update :=
  rfl

/-- **One more operation adds its entry to an update**, unless the update has one with the same
operator and path. -/
theorem entriesOf_addOperation (operand : Json) (hupdate : IsUpdate update)
    (hnew : ∀ e ∈ entriesOf update, ¬ (e.operator = op ∧ e.path = path)) :
    (entriesOf (addOperation update op [(path, operand)])).Perm
      (⟨op, path, operand⟩ :: entriesOf update) := by
  induction update with
  | nil => exact .refl _
  | cons e rest ih =>
    obtain ⟨other, j⟩ := e
    obtain ⟨⟨-, body, rfl⟩, hrest⟩ := List.forall_mem_cons.mp hupdate
    rw [entriesOf_cons, List.forall_mem_append] at hnew
    by_cases hne : other = op
    · subst hne
      have hmissing : Entries.get? body path = none := by
        refine Entries.get?_eq_none_iff.mpr fun hmem => ?_
        obtain ⟨p, hp, hpath⟩ := List.mem_map.mp hmem
        exact hnew.1 ⟨other, p.1, p.2⟩ (List.mem_map_of_mem hp) ⟨rfl, hpath⟩
      have hbody : Entries.insertAll body [(path, operand)] = body ++ [(path, operand)] :=
        Entries.insert_of_get?_none hmissing operand
      rw [addOperation_same, hbody, entriesOf_cons, entriesOf_cons, List.map_append,
        List.append_assoc]
      exact List.perm_middle
    · rw [addOperation_other hne, entriesOf_cons, entriesOf_cons]
      exact ((ih hrest hnew.2).append_left _).trans List.perm_middle

/-- An update with one more operation is one. -/
theorem isUpdate_addOperation (hupdate : IsUpdate update) (hop : beginsWith "$" op = true)
    (body : Object) : IsUpdate (addOperation update op body) := by
  have hinsert : ∀ body : Object, IsUpdate (update.insert op (.object body)) := by
    intro body e he
    rcases Entries.mem_insert he with he | rfl
    · exact hupdate e he
    · exact ⟨hop, body, rfl⟩
  unfold addOperation
  split
  · exact hinsert _
  · exact hinsert _

end

/-! ### Several operations -/

/-- Two entries have the same operator and path. -/
def SamePlace (e f : UpdateEntry) : Prop :=
  e.operator = f.operator ∧ e.path = f.path

/-- Operations are rendered as entries, one after the other. -/
inductive RenderedAs (c : Catalog) (t : DocumentType) :
    Conditions → Supply → List UpdateEntry → Supply → Prop
  | nil (s : Supply) : RenderedAs c t [] s [] s
  | cons {key : String} {v : Value} {rest : Conditions} {e : UpdateEntry}
      {entries : List UpdateEntry} {s u s' : Supply} (hkey : key ≠ rawKey)
      (hrun : (compileOperation c t key v).runFrom s =
        (.ok (e.operator, [(e.path, e.operand)]), u))
      (hrest : RenderedAs c t rest u entries s') :
      RenderedAs c t ((key, v) :: rest) s (e :: entries) s'

/-- **An update of several operations has all their entries**, as long as no two of them have the
same operator and path. -/
theorem compileOperations_merges {c : Catalog} {t : DocumentType} {operations : Conditions}
    {entries : List UpdateEntry} {s s' : Supply} (h : RenderedAs c t operations s entries s')
    (hoperators : ∀ e ∈ entries, beginsWith "$" e.operator = true) {update : Object}
    (hupdate : IsUpdate update)
    (hplaces : (entries ++ entriesOf update).Pairwise fun e f => ¬ SamePlace e f) :
    ∃ update', (compileOperations c t operations update).runFrom s = (.ok update', s') ∧
      IsUpdate update' ∧ (entriesOf update').Perm (entries ++ entriesOf update) := by
  induction h generalizing update with
  | nil s => exact ⟨update, rfl, hupdate, .refl _⟩
  | @cons key v rest e entries s u s' hkey hrun hrest ih =>
    obtain ⟨hoperator, hoperators⟩ := List.forall_mem_cons.mp hoperators
    have hnew : ∀ f ∈ entriesOf update, ¬ (f.operator = e.operator ∧ f.path = e.path) := by
      intro f hf hsame
      exact (List.pairwise_cons.mp hplaces).1 f (List.mem_append_right _ hf)
        ⟨hsame.1.symm, hsame.2.symm⟩
    have hadded := entriesOf_addOperation e.operand hupdate hnew
    have hperm : (entries ++ entriesOf (addOperation update e.operator [(e.path, e.operand)])).Perm
        (e :: entries ++ entriesOf update) := (hadded.append_left entries).trans List.perm_middle
    obtain ⟨update', hcompile, hupdate', hperm'⟩ := ih hoperators
      (isUpdate_addOperation hupdate hoperator _)
      (hperm.symm.pairwise hplaces fun h hsame => h ⟨hsame.1.symm, hsame.2.symm⟩)
    refine ⟨update', ?_, hupdate', hperm'.trans hperm⟩
    simp only [compileOperations, if_neg hkey]
    exact Drawing.runFrom_bind_eq_ok.mpr ⟨_, u, hrun, hcompile⟩

/-! ### Applying an update -/

section

variable {inserting : Bool} {before filter : Object}

/-- Entries are applied in two parts, one after the other. -/
theorem actAll_append (first rest : List UpdateEntry) (doc : Object) :
    actAll inserting (first ++ rest) doc =
      (actAll inserting first doc).andThen (actAll inserting rest) := by
  induction first generalizing doc with
  | nil => rfl
  | cons e first ih =>
    simp only [List.cons_append, actAll]
    generalize e.act inserting doc = applied
    obtain ⟨changed, failure⟩ := applied
    cases failure with
    | some cause => rfl
    | none => exact ih changed

namespace Object

/-- Applying the body of an operator is applying its entries. -/
theorem applyEntries_eq_actAll {op : String} {body : Object}
    (hbody : ∀ p ∈ body, "$" ∉ dottedSegments p.1) (doc : Object) :
    applyEntries before filter op inserting body doc =
      actAll inserting (body.map fun p => ⟨op, p.1, p.2⟩) doc := by
  induction body generalizing doc with
  | nil => rfl
  | cons p rest ih =>
    obtain ⟨path, operand⟩ := p
    obtain ⟨hpath, hrest⟩ := List.forall_mem_cons.mp hbody
    simp only [applyEntries, positionalPath_of_plain hpath, List.map_cons, actAll]
    exact congrArg _ (funext (ih hrest))

/-- **Applying an update is applying its entries.** -/
theorem applyOperators_eq_actAll {update : Object} (hupdate : IsUpdate update)
    (hplain : ∀ e ∈ entriesOf update, "$" ∉ dottedSegments e.path) (doc : Object) :
    applyOperators before filter inserting update doc =
      actAll inserting (entriesOf update) doc := by
  induction update generalizing doc with
  | nil => rfl
  | cons e rest ih =>
    obtain ⟨op, j⟩ := e
    obtain ⟨⟨-, body, rfl⟩, hrest⟩ := List.forall_mem_cons.mp hupdate
    rw [entriesOf_cons, List.forall_mem_append] at hplain
    have hbody : ∀ p ∈ body, "$" ∉ dottedSegments p.1 := fun p hp =>
      hplain.1 ⟨op, p.1, p.2⟩ (List.mem_map_of_mem hp)
    have hfirst : applyEntries before filter op inserting body doc =
        actAll inserting (body.map fun p => ⟨op, p.1, p.2⟩) doc := applyEntries_eq_actAll hbody doc
    rw [entriesOf_cons, actAll_append, ← hfirst]
    exact congrArg _ (funext (ih hrest hplain.2))

/-- An update with operators does not replace the document. -/
theorem apply_eq_actAll {update : Object} (hupdate : IsUpdate update) (hne : update ≠ [])
    (hplain : ∀ e ∈ entriesOf update, "$" ∉ dottedSegments e.path) (doc : Object) :
    doc.apply filter update inserting = actAll inserting (entriesOf update) doc := by
  obtain ⟨e, rest, rfl⟩ := List.exists_cons_of_ne_nil hne
  have hany : ((e :: rest).any fun e => beginsWith "$" e.1) = true := by
    rw [List.any_cons, (hupdate e List.mem_cons_self).1, Bool.true_or]
  unfold apply
  rw [if_pos hany]
  exact applyOperators_eq_actAll hupdate hplain doc

end Object

end

end DocumentMapper
