import DocumentMapper.Proofs.ChangedPlaces
import DocumentMapper.Proofs.Completion
import DocumentMapper.Proofs.SaveStages
import DocumentMapper.Proofs.SortedEntries
import DocumentMapper.Proofs.UnmarkedForms

/-!
# Documents in step with the store

What is read from the store has no marks, and neither has what was saved. Such a document has no
changed paths, so that its patch is empty and a save has nothing to send. All that could stop a
second save is the validation. It looks at what the first one has validated, without the marks: it
does not see the primary key, which a first save may assign, and pure rules do not see marks.

## Main results

* `Document.ofStorage_unmarked`: nothing is marked in a document that was read;
* `Document.validate_congr`: under pure rules validation does not see marks;
* `Document.save_cases`: what a save that ends well returns;
* `Document.clean_ofStorage_and_save`: a loaded or saved document is clean, and a second save does
  nothing.
-/

namespace DocumentMapper

open Drawing

/-! ### Values without marks -/

/-- Nothing is marked in some values if nothing is in each of them. -/
theorem unmarkedItems_eq_self {vs : List Value} :
    unmarkedItems vs = vs ↔ ∀ v ∈ vs, v.unmarked = v := by
  induction vs with
  | nil => simp [unmarkedItems]
  | cons v vs ih => simp [unmarkedItems, ih]

theorem unmarkedEntries_eq_self {es : List (String × Value)} :
    unmarkedEntries es = es ↔ ∀ e ∈ es, e.2.unmarked = e.2 := by
  induction es with
  | nil => simp [unmarkedEntries]
  | cons e rest ih =>
    obtain ⟨k, v⟩ := e
    rw [List.forall_mem_cons, ← ih]
    simp [unmarkedEntries]

/-- Sorting entries brings in none. -/
theorem Entries.mem_of_mem_ofPairs {α : Type} {pairs : List (String × α)} {e : String × α}
    (h : e ∈ Entries.ofPairs pairs) : e ∈ pairs := by
  have hfold : ∀ es : Entries α, e ∈ pairs.foldl (fun acc e => acc.insertSorted e.1 e.2) es →
      e ∈ es ∨ e ∈ pairs := by
    clear h
    induction pairs with
    | nil => exact fun es h => .inl h
    | cons first rest ih =>
      intro es h
      rcases ih _ h with h | h
      · rcases Entries.mem_insertSorted h with h | rfl
        · exact .inl h
        · exact .inr List.mem_cons_self
      · exact .inr (List.mem_cons_of_mem _ h)
  exact (hfold [] h).resolve_left List.not_mem_nil

/-- Nothing is marked in a dict of pairs in which nothing is. -/
theorem Value.ofPairs_unmarked {pairs : List (String × Value)}
    (h : ∀ e ∈ pairs, e.2.unmarked = e.2) : (Value.ofPairs pairs).unmarked = .ofPairs pairs :=
  congrArg Value.dict
    (unmarkedEntries_eq_self.mpr fun e he => h e (Entries.mem_of_mem_ofPairs he))

mutual

/-- Nothing is marked in what a stored value is on its own. -/
theorem Value.ofJson_unmarked : ∀ (j : Json), (Value.ofJson j).unmarked = .ofJson j
  | .array items => congrArg Value.list (unmarkedItems_eq_self.mpr (Value.ofItems_unmarked items))
  | .object entries => by
    rw [Value.ofJson]
    split
    · rfl
    · exact Value.ofPairs_unmarked (Value.ofEntries_unmarked entries)
  | .whole n => by
    rw [Value.ofJson]
    split <;> rfl
  | .null => rfl
  | .bool _ => rfl
  | .float _ => rfl
  | .string _ => rfl
termination_by structural j => j

/-- The same for some values. -/
theorem Value.ofItems_unmarked : ∀ (js : List Json), ∀ v ∈ Value.ofItems js, v.unmarked = v
  | [], _, hv => by cases hv
  | j :: js, v, hv => by
    rcases List.mem_cons.mp hv with rfl | hv
    · exact Value.ofJson_unmarked j
    · exact Value.ofItems_unmarked js v hv
termination_by structural js => js

/-- The same for some entries. -/
theorem Value.ofEntries_unmarked : ∀ (es : List (String × Json)),
    ∀ e ∈ Value.ofEntries es, e.2.unmarked = e.2
  | [], _, he => by cases he
  | (k, j) :: rest, e, he => by
    rcases List.mem_cons.mp he with rfl | he
    · exact Value.ofJson_unmarked j
    · exact Value.ofEntries_unmarked rest e he
termination_by structural es => es

end

theorem decodeReference_unmarked (typeName : String) (j : Json) :
    (decodeReference typeName j).unmarked = decodeReference typeName j := by
  unfold decodeReference
  split
  · rfl
  · split
    · rfl
    · exact Value.ofJson_unmarked _
  · rfl

theorem Scalar.decodeLeaf_unmarked (s : Scalar) (j : Json) :
    (s.decodeLeaf j).unmarked = s.decodeLeaf j := by
  unfold Scalar.decodeLeaf
  split
  · split <;> rfl
  · rfl
  · exact Value.ofJson_unmarked j

theorem Scalar.decodeObject_unmarked (s : Scalar) (entries : Object) :
    (s.decodeObject entries).unmarked = s.decodeObject entries := by
  unfold Scalar.decodeObject
  split <;> exact Value.ofJson_unmarked _

/-- A stored value without parts is read as one that holds no document. -/
theorem unmarked_of_leaf (kind : Kind) (j : Json) {v : Value}
    (h : v = match kind with
      | .scalar s => s.decodeLeaf j
      | .reference typeName => decodeReference typeName j
      | _ => .ofJson j) : v.unmarked = v := by
  subst h
  split
  · exact Scalar.decodeLeaf_unmarked _ j
  · exact decodeReference_unmarked _ j
  · exact Value.ofJson_unmarked j

mutual

/-- **Nothing is marked in a value that is read for a field.** -/
theorem Json.decode_unmarked (c : Catalog) : ∀ (j : Json) (f : Field),
    (j.decode c f).unmarked = j.decode c f
  | .array items, f => by
    rw [Json.decode]
    split
    · rename_i element _
      exact congrArg Value.list (unmarkedItems_eq_self.mpr (decodeItems_unmarked c items element))
    · exact decodeReference_unmarked _ _
    · exact Value.ofJson_unmarked _
  | .object entries, f => by
    rw [Json.decode]
    split
    · exact Scalar.decodeObject_unmarked _ entries
    · rename_i declared _
      have hfields := decodeFields_unmarked c entries (c.concreteType declared entries)
      have hvalues := unmarkedEntries_eq_self.mpr fun e he =>
        hfields e (Entries.mem_of_mem_ofPairs he)
      simp only [Value.unmarked, Document.unmarked, hvalues]
    · exact decodeReference_unmarked _ _
    · rename_i element _
      exact Value.ofPairs_unmarked (decodeEntries_unmarked c entries element)
    · exact Value.ofJson_unmarked _
  | .null, _ => rfl
  | .bool b, f => unmarked_of_leaf f.kind (.bool b) rfl
  | .whole n, f => unmarked_of_leaf f.kind (.whole n) rfl
  | .float x, f => unmarked_of_leaf f.kind (.float x) rfl
  | .string s, f => unmarked_of_leaf f.kind (.string s) rfl
termination_by structural j => j

/-- The same for the items of a list. -/
theorem decodeItems_unmarked (c : Catalog) : ∀ (js : List Json) (element : Field),
    ∀ v ∈ decodeItems c js element, v.unmarked = v
  | [], _, _, hv => by cases hv
  | j :: js, element, v, hv => by
    rcases List.mem_cons.mp hv with rfl | hv
    · exact Json.decode_unmarked c j element
    · exact decodeItems_unmarked c js element v hv
termination_by structural js => js

/-- The same for the entries of a dict. -/
theorem decodeEntries_unmarked (c : Catalog) : ∀ (es : List (String × Json)) (element : Field),
    ∀ e ∈ decodeEntries c es element, e.2.unmarked = e.2
  | [], _, _, he => by cases he
  | (k, j) :: rest, element, e, he => by
    rcases List.mem_cons.mp he with rfl | he
    · exact Json.decode_unmarked c j element
    · exact decodeEntries_unmarked c rest element e he
termination_by structural es => es

/-- The same for the attributes of a document. -/
theorem decodeFields_unmarked (c : Catalog) : ∀ (es : List (String × Json)) (t : DocumentType),
    ∀ e ∈ decodeFields c es t, e.2.unmarked = e.2
  | [], _, _, he => by cases he
  | (key, j) :: rest, t, e, he => by
    rw [decodeFields] at he
    split at he
    · exact decodeFields_unmarked c rest t e he
    · split at he
      · rename_i f _
        rcases List.mem_cons.mp he with rfl | he
        · exact Json.decode_unmarked c j f
        · exact decodeFields_unmarked c rest t e he
      · split at he
        · rcases List.mem_cons.mp he with rfl | he
          · exact Value.ofJson_unmarked j
          · exact decodeFields_unmarked c rest t e he
        · exact decodeFields_unmarked c rest t e he
termination_by structural es => es

end

theorem Field.decode_unmarked (c : Catalog) (f : Field) (j : Json) :
    (f.decode c j).unmarked = f.decode c j :=
  j.decode_unmarked c f

/-- **Nothing is marked in a document that was read.** -/
theorem Document.ofStorage_unmarked (c : Catalog) (t : DocumentType) (raw : Object) :
    (Document.ofStorage c t raw).unmarked = Document.ofStorage c t raw := by
  have hvalues := unmarkedEntries_eq_self.mpr fun e he =>
    decodeFields_unmarked c raw t e (Entries.mem_of_mem_ofPairs he)
  simp only [ofStorage, unmarked, hvalues]

/-! ### Changed paths -/

/-- A document without marks has no changed paths. -/
@[simp] theorem Document.changedPaths_unmarked (doc : Document) :
    doc.unmarked.changedPaths = .empty := by
  have hnone : doc.unmarked.changedPaths.paths = [] := by
    refine List.eq_nil_iff_forall_not_mem.mpr fun path hpath => ?_
    exact not_nested_unmarked doc
      (nested_of_changedPaths (DirtyPaths.mem_segments.mpr ⟨path, hpath, rfl⟩))
  exact congrArg DirtyPaths.mk hnone

/-- A document whose patch is empty has no changed paths. -/
theorem Document.changedPaths_of_isEmpty {doc : Document} {p : Patch}
    (h : doc.incrementalPatch.Gives p) (hempty : p.isEmpty = true) :
    doc.changedPaths = .empty := by
  have hedits : p.edits = [] := by
    simp only [Patch.isEmpty, Bool.and_eq_true, List.isEmpty_iff] at hempty
    simp [Patch.edits, hempty.1, hempty.2]
  have hnone : doc.changedPaths.paths = [] := by
    refine List.eq_nil_iff_forall_not_mem.mpr fun path hpath => ?_
    obtain ⟨edit, hedit⟩ :=
      (gives_incrementalPatch h).2 _ (DirtyPaths.mem_segments.mpr ⟨path, hpath, rfl⟩)
    rw [hedits] at hedit
    cases hedit
  exact congrArg DirtyPaths.mk hnone

/-- Nothing is marked in the documents that a value without marks embeds. -/
theorem Value.Embeds.unmarked {v : Value} {doc : Document} (h : v.Embeds doc)
    (hv : v.unmarked = v) : doc.unmarked = doc := by
  induction h with
  | document doc => exact Value.document.inj hv
  | item hmem _ ih => exact ih (unmarkedItems_eq_self.mp (Value.list.inj hv) _ hmem)
  | entry he _ ih => exact ih (unmarkedEntries_eq_self.mp (Value.dict.inj hv) _ he)
  | held he _ ih =>
    have hvalues := congrArg Document.values (Value.document.inj hv)
    rw [Document.unmarked_values] at hvalues
    exact ih (unmarkedEntries_eq_self.mp hvalues _ he)

/-! ### Validation -/

/-- What a field says to the value of an attribute. -/
def Field.verdict (f : Field) : Option Value → Except Error Unit
  | some v => v.validate f
  | none => f.requirement

theorem get?_checksOf (values : List (String × Value)) (name : String) :
    Entries.get? (checksOf values) name =
      (Entries.get? values name).map fun v => fun f => v.validate f := by
  induction values with
  | nil => rfl
  | cons e rest ih =>
    obtain ⟨k, v⟩ := e
    by_cases hk : k = name
    · simp [checksOf, Entries.get?, hk]
    · simp [checksOf, Entries.get?, hk, ih]

/-- Two checks succeed one after the other when both do. -/
theorem both_eq_ok {ε : Type} {x y : Except ε Unit} :
    (x >>= fun _ => y) = .ok () ↔ x = .ok () ∧ y = .ok () := by
  cases x <;> simp [bind, Except.bind]

theorem checkFields_eq_ok {key : Option String} {values : List (String × Value)}
    {fields : List Field} :
    checkFields key (checksOf values) fields = .ok () ↔
      ∀ f ∈ fields, key ≠ some f.name → f.verdict (Entries.get? values f.name) = .ok () := by
  induction fields with
  | nil => simp [checkFields, pure, Except.pure]
  | cons f fs ih =>
    rw [List.forall_mem_cons, ← ih, checkFields]
    by_cases hkey : key = some f.name
    · simp [hkey]
    · rw [if_neg (by simpa using hkey), get?_checksOf]
      cases Entries.get? values f.name <;>
        simp [Field.verdict, both_eq_ok, hkey]

/-- **A document is valid when every declared field but the primary key accepts its attribute.** -/
theorem Document.validate_eq_ok {doc : Document} :
    doc.validate = .ok () ↔ ∀ f ∈ doc.type.fields, doc.type.primaryKey ≠ some f.name →
      f.verdict (Entries.get? doc.values f.name) = .ok () := by
  obtain ⟨type, values, dirty, raw⟩ := doc
  exact checkFields_eq_ok

/-- Validation looks at nothing but the type and the attributes beside the primary key. -/
theorem Document.validate_of_attributes (doc doc' : Document) (htype : doc'.type = doc.type)
    (hvalues : ∀ name, doc.type.primaryKey ≠ some name →
      Entries.get? doc'.values name = Entries.get? doc.values name) :
    doc'.validate = .ok () ↔ doc.validate = .ok () := by
  rw [validate_eq_ok, validate_eq_ok, htype]
  refine forall_congr' fun f => forall_congr' fun _ => forall_congr' fun hkey => ?_
  rw [hvalues f.name hkey]

theorem Field.approve_eq_ok {f : Field} {v : Value} :
    f.approve v = .ok () ↔ (f.validator.bind (·.objection? v)).isSome = false := by
  unfold approve
  cases f.validator.bind (·.objection? v) <;> simp [throw, throwThe, MonadExceptOf.throw, pure,
    Except.pure]

/-- A field approves of values alike that differ in their marks, if its rule does not see them. -/
theorem Field.approve_congr {f : Field} {v v' : Value} (hf : f.HasPureRules)
    (h : v.unmarked = v'.unmarked) : f.approve v = .ok () ↔ f.approve v' = .ok () := by
  rw [approve_eq_ok, approve_eq_ok]
  cases hvalidator : f.validator with
  | none => rfl
  | some rule =>
    have hrule := hf rule (.own hvalidator)
    simp only [Option.bind_some, Option.isSome_eq_false_iff, Option.isNone_iff_eq_none]
    rw [← hrule v, h, hrule v']

mutual

/-- Values that differ in their marks are valid alike, under pure rules. -/
theorem Value.validate_congr : ∀ (v v' : Value) (f : Field), v.HasPureRules → f.HasPureRules →
    v.unmarked = v'.unmarked → (v.validate f = .ok () ↔ v'.validate f = .ok ())
  | .list items, v', f, hpure, hf, h => by
    have happrove := f.approve_congr hf h
    obtain ⟨items', rfl, hitems⟩ := Value.unmarked_eq_list h
    have hparts := validateItems_congr items items'
    simp only [Value.validate, both_eq_ok, happrove]
    cases hkind : f.kind with
    | list element =>
      exact and_congr_right' (hparts element (fun v hv doc hdoc => hpure doc (.item hv hdoc))
        (hf.element (by rw [hkind]; rfl)) hitems)
    | _ => rfl
  | .dict entries, v', f, hpure, hf, h => by
    have happrove := f.approve_congr hf h
    obtain ⟨entries', rfl, hentries⟩ := Value.unmarked_eq_dict h
    have hparts := validateEntries_congr entries entries'
    simp only [Value.validate, both_eq_ok, happrove]
    cases hkind : f.kind with
    | dict element =>
      exact and_congr_right' (hparts element (fun e he doc hdoc => hpure doc (.entry he hdoc))
        (hf.element (by rw [hkind]; rfl)) hentries)
    | _ => rfl
  | .document doc, v', f, hpure, hf, h => by
    have happrove := f.approve_congr hf h
    obtain ⟨doc', rfl, hdoc⟩ := Value.unmarked_eq_document h
    have hparts := Document.validate_congr doc doc' hpure (.of_unmarked_eq hdoc)
    simp only [Value.validate, both_eq_ok, happrove]
    cases f.kind with
    | embedded type => exact and_congr_right' hparts
    | _ => rfl
  | .null, v', _, _, _, h | .bool _, v', _, _, _, h | .int _, v', _, _, _, h
  | .float _, v', _, _, _, h | .string _, v', _, _, _, h | .datetime _, v', _, _, _, h
  | .reference _, v', _, _, _, h | .linked _, v', _, _, _, h => by
    rw [Value.eq_of_unmarked_eq rfl h]
termination_by structural v => v

/-- The same for the items of a list. -/
theorem validateItems_congr : ∀ (vs vs' : List Value) (element : Field),
    (∀ v ∈ vs, v.HasPureRules) → element.HasPureRules → unmarkedItems vs = unmarkedItems vs' →
    (validateItems vs element = .ok () ↔ validateItems vs' element = .ok ())
  | [], vs', _, _, _, h => by
    obtain rfl := unmarkedItems_eq_nil h
    rfl
  | v :: vs, vs', element, hpure, helement, h => by
    obtain ⟨hpureFirst, hpureRest⟩ := List.forall_mem_cons.mp hpure
    obtain ⟨w, ws, rfl, hv, hvs⟩ := unmarkedItems_eq_cons h
    have hfirst := Value.validate_congr v w element hpureFirst helement hv
    have hrest := validateItems_congr vs ws element hpureRest helement hvs
    simp only [validateItems, Value.isNull_congr hv]
    split
    · exact hrest
    · rw [both_eq_ok, both_eq_ok, hfirst, hrest]
termination_by structural vs => vs

/-- The same for the values of a dict. -/
theorem validateEntries_congr : ∀ (es es' : List (String × Value)) (element : Field),
    (∀ e ∈ es, e.2.HasPureRules) → element.HasPureRules →
    unmarkedEntries es = unmarkedEntries es' →
    (validateEntries es element = .ok () ↔ validateEntries es' element = .ok ())
  | [], es', _, _, _, h => by
    obtain rfl := unmarkedEntries_eq_nil h
    rfl
  | (k, v) :: rest, es', element, hpure, helement, h => by
    obtain ⟨hpureFirst, hpureRest⟩ := List.forall_mem_cons.mp hpure
    obtain ⟨w, rest', rfl, hv, hothers⟩ := unmarkedEntries_eq_cons h
    have hfirst := Value.validate_congr v w element hpureFirst helement hv
    have hrest := validateEntries_congr rest rest' element hpureRest helement hothers
    simp only [validateEntries, Value.isNull_congr hv]
    split
    · exact hrest
    · rw [both_eq_ok, both_eq_ok, hfirst, hrest]
termination_by structural es => es

/-- The same for attributes. -/
theorem verdict_congr : ∀ (es es' : List (String × Value)) (name : String) (f : Field),
    (∀ e ∈ es, e.2.HasPureRules) → f.HasPureRules → unmarkedEntries es = unmarkedEntries es' →
    (f.verdict (Entries.get? es name) = .ok () ↔ f.verdict (Entries.get? es' name) = .ok ())
  | [], es', _, _, _, _, h => by
    obtain rfl := unmarkedEntries_eq_nil h
    rfl
  | (k, v) :: rest, es', name, f, hpure, hf, h => by
    obtain ⟨hpureFirst, hpureRest⟩ := List.forall_mem_cons.mp hpure
    obtain ⟨w, rest', rfl, hv, hothers⟩ := unmarkedEntries_eq_cons h
    have hfirst := Value.validate_congr v w f hpureFirst hf hv
    have hrest := verdict_congr rest rest' name f hpureRest hf hothers
    simp only [Entries.get?]
    split
    · exact hfirst
    · exact hrest
termination_by structural es => es

/-- **Pure rules do not see marks**: documents that differ in them are valid alike. -/
theorem Document.validate_congr : ∀ (doc doc' : Document), doc.HasPureRules → doc.Resembles doc' →
    (doc.validate = .ok () ↔ doc'.validate = .ok ())
  | ⟨type, values, dirty, raw⟩, doc', hpure, ⟨htype, hvalues⟩ => by
    have hverdict := fun f hf => verdict_congr values doc'.values (Field.name f) f hpure.values
      (hpure.fields f hf) hvalues
    rw [Document.validate_eq_ok, Document.validate_eq_ok, ← htype]
    exact forall_congr' fun f => forall_congr' fun hf => forall_congr' fun _ => hverdict f hf
termination_by structural doc => doc

end

/-! ### Saves that end well -/

namespace Document

@[simp] theorem persisted_isNew (d : Document) (raw : Object) : (d.persisted raw).isNew = false :=
  rfl

theorem persisted_eq (d : Document) (raw : Object) :
    d.persisted raw = { d with raw := some raw : Document }.unmarked := by
  cases d
  rfl

/-- An insertion that ends well returns the document with at most another key. -/
theorem insertInto_eq_ok {c : Catalog} {d saved : Document} {collection : String} {s t : Session}
    (h : (d.insertInto c collection).runFrom s = (.ok saved, t)) :
    d.validate = .ok () ∧ ∃ (keyed : Document) (raw : Object), saved = keyed.persisted raw ∧
      keyed.type = d.type ∧ ∀ name, d.type.primaryKey ≠ some name →
        Entries.get? keyed.values name = Entries.get? d.values name := by
  simp only [insertInto, Work.runFrom_bind_eq_ok, Work.runFrom_ofExcept, Work.runFrom_drawing,
    Work.runFrom_change, Prod.mk.injEq] at h
  obtain ⟨_, _, ⟨hvalid, rfl⟩, raw, _, ⟨-, rfl⟩, ids, _, ⟨hids, rfl⟩, h⟩ := h
  obtain ⟨id, rfl, -⟩ := Store.documents_insert_ok (Prod.ext (mapError_eq_ok.mp hids) rfl)
  refine ⟨hvalid, ?_⟩
  cases hpresent : d.primaryKey? with
  | some v =>
    rw [hpresent] at h
    obtain rfl := Except.ok.inj (Prod.mk.inj h).1
    exact ⟨d, _, rfl, rfl, fun _ _ => rfl⟩
  | none =>
    simp only [hpresent, setKey, Work.runFrom_bind_eq_ok, Work.runFrom_ofExcept, Work.runFrom_pure,
      Prod.mk.injEq, Except.ok.injEq, mapError_eq_ok] at h
    obtain ⟨keyed, _, ⟨hkeyed, rfl⟩, rfl, -⟩ := h
    refine ⟨keyed, _, rfl, ?_⟩
    split at hkeyed
    · rename_i key hkey
      obtain rfl := Except.ok.inj hkeyed
      refine ⟨rfl, fun name hname => Entries.get?_insertSorted_of_ne _ _ fun heq => ?_⟩
      exact hname (by rw [hkey, heq])
    · cases hkeyed

/-- **What a save that ends well returns**: a document that had nothing to send as it was, and any
other one without marks. Under pure rules it is still valid. -/
theorem save_cases {c : Catalog} {d saved : Document} {s t : Session}
    (h : d.save c s = (saved, .ok (), t)) :
    saved.isNew = false ∧ saved.type.collection.isSome ∧ saved.changedPaths = .empty ∧
      (saved.HasPureRules → saved.validate = .ok ()) := by
  cases hnew : d.isNew with
  | true =>
    obtain ⟨collection, full, u, hc, htype, -, hinsert⟩ := inserted_of_save hnew h
    obtain ⟨hvalid, keyed, raw, rfl, hkeyed, hvalues⟩ := insertInto_eq_ok hinsert
    have hvalidKeyed := (validate_of_attributes _ keyed hkeyed hvalues).mpr hvalid
    refine ⟨rfl, ?_, by rw [persisted_eq, changedPaths_unmarked], fun hpure =>
      (validate_congr _ keyed hpure (keyed.resembles_persisted raw).symm).mpr hvalidKeyed⟩
    rw [← (keyed.resembles_persisted raw).type, hkeyed, htype, hc]
    rfl
  | false =>
    obtain ⟨collection, sent, u, hc, hsent, -, hsaved⟩ := save_eq_ok_of_loaded hnew h
    obtain ⟨hvalid, patch, w, hpatch, hcases⟩ := sendChanges_eq_ok hsent
    rcases hsaved with ⟨rfl, rfl⟩ | ⟨raw, rfl, -, rfl⟩
    · rcases hcases with ⟨-, hempty, -⟩ | ⟨_, _, hfalse, -⟩
      · exact ⟨hnew, by rw [hc]; rfl, changedPaths_of_isEmpty ⟨_, _, hpatch⟩ hempty,
          fun _ => hvalid⟩
      · cases hfalse
    · refine ⟨rfl, ?_, by rw [persisted_eq, changedPaths_unmarked], fun hpure =>
        (validate_congr _ d hpure (d.resembles_persisted raw).symm).mpr hvalid⟩
      rw [← (d.resembles_persisted raw).type, hc]
      rfl

/-- A document in step with the store is validated by a save, and nothing else happens. -/
theorem save_of_clean (c : Catalog) {d : Document} (s : Session) (hnew : d.isNew = false)
    (hc : d.type.collection.isSome) (hclean : d.changedPaths = .empty) :
    d.save c s = (d, d.validate, s) := by
  obtain ⟨collection, hc⟩ := Option.isSome_iff_exists.mp hc
  have hpatch : d.incrementalPatch = pure .empty := by
    rw [incrementalPatch, hclean]
    rfl
  have hrun : (d.updateIn collection).runFrom s = (d.validate.map fun _ => d, s) := by
    rw [updateIn, hpatch]
    cases d.validate <;> rfl
  rw [save_of_loaded c s hnew hc, hrun]
  cases d.validate <;> rfl

/-- **Loaded and saved documents are clean, and saving again does nothing.** A document that is read
from the store has no changed paths, and neither has any document embedded in it. After a save that
ends well there are none either. The next save returns the same document and leaves the store and the
generators as they are; it ends as the validation does, and so it ends well under pure rules. -/
theorem clean_ofStorage_and_save (c : Catalog) :
    (∀ (t : DocumentType) (raw : Object) (doc : Document),
      (Value.document (ofStorage c t raw)).Embeds doc → doc.changedPaths = .empty) ∧
    ∀ (d saved : Document) (s t : Session), d.save c s = (saved, .ok (), t) →
      saved.changedPaths = .empty ∧ saved.save c t = (saved, saved.validate, t) ∧
        (saved.HasPureRules → saved.save c t = (saved, .ok (), t)) := by
  refine ⟨fun type raw doc hdoc => ?_, fun d saved s t hsave => ?_⟩
  · have hunmarked := hdoc.unmarked (congrArg Value.document (ofStorage_unmarked c type raw))
    rw [← hunmarked, changedPaths_unmarked]
  · obtain ⟨hnew, hc, hclean, hvalid⟩ := save_cases hsave
    have hagain := save_of_clean c t hnew hc hclean
    exact ⟨hclean, hagain, fun hpure => by rw [hagain, hvalid hpure]⟩

end Document

/-- Rows that need a title. -/
def titledRowType : DocumentType :=
  { rowType with
    fields := [{ Field.ofKind "id" (.scalar .objectId) with storageName := idKey },
      { Field.ofKind "title" (.scalar .string) with validator := some .nonEmpty }] }

/-- The row gets a key from the store, and a second save finds nothing to send. -/
theorem clean_ofStorage_and_save_titledRow :
    let row := (Document.new titledRowType).assign [("title", .string "new")]
    let saved := (row.save .empty .empty).1
    let after := (row.save .empty .empty).2.2
    row.save .empty .empty = (saved, .ok (), after) ∧ saved.HasPureRules ∧
      saved.changedPaths = .empty ∧ saved.save .empty after = (saved, .ok (), after) := by
  intro row saved after
  have hsave : row.save .empty .empty = (saved, .ok (), after) := rfl
  have hfields : ∀ f ∈ titledRowType.fields, f.HasPureRules := by
    simp only [titledRowType, List.forall_mem_cons, List.not_mem_nil, false_implies, implies_true,
      and_true]
    refine ⟨Field.hasPureRules_of_unchecked rfl rfl, Field.hasPureRules_of_noElement rfl ?_⟩
    rintro rule ⟨⟩
    exact Validator.isPure_nonEmpty
  have hvalues : saved.values = [("id", .string "<id-1>"), ("title", .string "new")] := rfl
  have hpure : saved.HasPureRules := by
    refine Document.hasPureRules_of_leaves (fun e he => ?_) hfields
    rw [hvalues] at he
    revert e
    simp [Value.IsLeaf]
  obtain ⟨hclean, -, hagain⟩ := (Document.clean_ofStorage_and_save .empty).2 row saved .empty after hsave
  exact ⟨hsave, hpure, hclean, hagain hpure⟩

end DocumentMapper
