import DocumentMapper.Proofs.FilterVerdicts
import DocumentMapper.Proofs.FirstRecord
import DocumentMapper.Proofs.Loading
import DocumentMapper.Proofs.TypeHierarchy

/-!
# The documents of a type

The types of a hierarchy share a collection. A record names the class of its document, a subtype asks
for the classes below it, and a record is read as the class that it names. So the documents of a type
are those that were saved as it or as a type below it, in the order in which they were saved, and
every one is read as what it was saved as.

All of this rests on the name of the class. A field can be stored under its key, which is ruled out
here for the whole catalog. But a dynamic type also takes an attribute of that name, which is written
over the class: such a document is no longer found, or read as something else.

## Main results

* `Document.get?_classKey`: which class a stored form names;
* `FirstSaves.documents`: the records that first saves have added;
* `Selection.runFrom_all_ofType`: what the selection of a whole type finds;
* `Mapper.objects_load_descendants`: the documents of every type of a hierarchy.
-/

namespace DocumentMapper

open Drawing

/-! ### The class of a record -/

/-- What undeclared attributes write is what they store. -/
theorem gives_writeUndeclared {fields : List Field} {values : List (String × Value)}
    {ws : List Writing} (h : (writeUndeclared fields (encodersOf values)).Gives ws) :
    ∀ w ∈ ws, (fields.any fun f => f.name == w.key) = false ∧
      ∃ v, (w.key, v) ∈ values ∧ (v.encode (.any w.key)).Gives w.encoded := by
  induction values generalizing ws with
  | nil =>
    obtain rfl := gives_pure.mp h
    simp
  | cons e rest ih =>
    obtain ⟨name, v⟩ := e
    have hlater : ∀ {others : List Writing},
        (writeUndeclared fields (encodersOf rest)).Gives others → ∀ w ∈ others,
          (fields.any fun f => f.name == w.key) = false ∧
            ∃ u, (w.key, u) ∈ (name, v) :: rest ∧ (u.encode (.any w.key)).Gives w.encoded :=
      fun hothers w hw => by
        obtain ⟨hnot, u, hu, hencoded⟩ := ih hothers w hw
        exact ⟨hnot, u, List.mem_cons_of_mem _ hu, hencoded⟩
    simp only [encodersOf, writeUndeclared] at h
    split at h
    · exact hlater h
    · rename_i hundeclared
      obtain ⟨j, hj, h⟩ := Gives.of_bind h
      obtain ⟨others, hothers, h⟩ := Gives.of_bind h
      obtain rfl := gives_pure.mp h
      refine List.forall_mem_cons.mpr ⟨⟨by simpa using hundeclared, v, List.mem_cons_self, hj⟩, ?_⟩
      exact hlater hothers

/-- The class name that the records of a type have, if they have one. -/
def DocumentType.recordedClass? (t : DocumentType) : Option String :=
  if t.isPolymorphic then some t.className else none

namespace Document

/-- Nothing but the class of a document is stored under its name: no declared field is, and an
attribute that is not declared has no value there. -/
structure LeavesClassFree (d : Document) : Prop where
  declared : ∀ f ∈ d.type.fields, f.storageName ≠ classKey
  undeclared : d.type.field? classKey = none → ∀ v, (classKey, v) ∈ d.values → v = .null

/-- **The class that a stored form names** is that of a polymorphic document. -/
theorem get?_classKey {d : Document} (h : d.LeavesClassFree) {patch : Patch}
    (hpatch : d.fullPatch.Gives patch) :
    patch.sets.get? classKey = d.type.recordedClass?.map .string := by
  obtain ⟨declared, undeclared, hdeclared, hundeclared, rfl⟩ := gives_writings hpatch
  have hwritten : Entries.get? ((declared ++ undeclared).foldl Patch.write .empty).sets classKey =
      none := by
    refine Option.eq_none_iff_forall_not_mem.mpr fun j hj => ?_
    rcases Patch.written_of_get? hj with hempty | ⟨w, hw, hkey, rfl, hnull⟩
    · cases hempty
    rcases List.mem_append.mp hw with hw | hw
    · obtain ⟨f, hf, hstored, -⟩ := (gives_writeFields hdeclared).1 w hw
      exact h.declared f hf (hstored.symm.trans hkey)
    · obtain ⟨hnot, v, hv, hencoded⟩ := gives_writeUndeclared hundeclared w hw
      rw [hkey] at hnot hv
      obtain rfl := h.undeclared (any_fields_eq_false_iff.mp hnot) v hv
      rw [gives_pure.mp hencoded] at hnull
      cases hnull
  rw [Patch.get?_sets_foldl_write, hwritten, Option.none_or, get?_classPatch,
    DocumentType.recordedClass?]
  by_cases hpolymorphic : d.type.isPolymorphic = true <;> simp [hpolymorphic]

/-! ### First saves -/

/-- A save of a new document keeps its type. -/
theorem type_of_save {c : Catalog} {d saved : Document} {s t : Session} (hnew : d.isNew = true)
    (h : d.save c s = (saved, .ok (), t)) : saved.type = d.type := by
  obtain ⟨collection, full, u, -, htype, -, hinsert⟩ := inserted_of_save hnew h
  obtain ⟨-, keyed, raw, rfl, hkeyed, -⟩ := insertInto_eq_ok hinsert
  rw [persisted, unmarked_type, hkeyed, htype]

end Document

theorem mem_unmarkedEntries {values : List (String × Value)} {key : String} {v : Value}
    (h : (key, v) ∈ values) : (key, v.unmarked) ∈ unmarkedEntries values := by
  induction values with
  | nil => cases h
  | cons e rest ih =>
    obtain ⟨k, w⟩ := e
    rcases List.mem_cons.mp h with heq | h
    · obtain ⟨rfl, rfl⟩ := Prod.mk.inj heq
      exact List.mem_cons_self
    · exact List.mem_cons_of_mem _ (ih h)

theorem Entries.mem_insertSorted_of_ne {α : Type} {es : Entries α} {key other : String}
    {value v : α} (h : (key, v) ∈ es) (hne : other ≠ key) :
    (key, v) ∈ es.insertSorted other value := by
  induction es with
  | nil => cases h
  | cons first rest ih =>
    obtain ⟨k, w⟩ := first
    simp only [insertSorted]
    split
    · rename_i hk
      rcases List.mem_cons.mp h with heq | h
      · exact absurd (hk.symm.trans (Prod.mk.inj heq).1.symm) hne
      · exact List.mem_cons_of_mem _ h
    · split
      · exact List.mem_cons_of_mem _ h
      · rcases List.mem_cons.mp h with heq | h
        · exact heq ▸ List.mem_cons_self
        · exact List.mem_cons_of_mem _ (ih h)

namespace FirstSaved

variable {c : Catalog} {d saved full : Document} {patch : Patch} {id : Json} {n : Nat}
  {collection : String}

/-- The document that was inserted leaves the name of the class free if the saved one does. -/
theorem leavesClassFree (h : FirstSaved c d saved full patch id n) (ht : full.type.Built)
    (hc : full.type.collection = some collection) (hfree : saved.LeavesClassFree) :
    full.LeavesClassFree := by
  refine ⟨h.saved_type ▸ hfree.declared, fun hnone v hv => ?_⟩
  have hkeyed : (classKey, v) ∈ (full.keyed c id).values := by
    unfold Document.keyed
    split
    · -- The key that was put in is declared.
      rename_i key _ hkey
      obtain ⟨f, hf, hname, -⟩ := ht.exists_keyField hc
      obtain rfl := Option.some.inj (hkey.symm.trans hname)
      refine Entries.mem_insertSorted_of_ne hv fun heq => ?_
      rw [← heq, ht.field?_of_mem hf] at hnone
      cases hnone
    · exact hv
  have hnull : v.unmarked = .null := by
    refine hfree.undeclared (by rw [h.saved_type, hnone]) _ ?_
    rw [h.saved_values]
    exact mem_unmarkedEntries hkeyed
  cases v with
  | null => rfl
  | _ => cases hnull

end FirstSaved

/-- New documents are saved one after the other. `saved` are the documents after their saves. -/
inductive FirstSaves (c : Catalog) : Session → List Document → Session → Prop where
  | nil (s : Session) : FirstSaves c s [] s
  | cons {s t u : Session} {d saved : Document} {rest : List Document} (hnew : d.isNew = true)
      (h : d.save c s = (saved, .ok (), t)) (hrest : FirstSaves c t rest u) :
      FirstSaves c s (saved :: rest) u

/-- A saved document is what its record says: the record has the stored form that the document was
saved as, and names its class. -/
structure Document.IsRecorded (d : Document) (record : Object) : Prop where
  kept : ∃ raw : Object, d.raw = some raw ∧ ∀ key, raw.get? key = record.get? key
  class_ : record.get? classKey = d.type.recordedClass?.map .string

/-- A first save adds the record of the saved document. -/
theorem Document.isRecorded_of_save {c : Catalog} {d saved : Document} {s t : Session}
    {collection : String} (ht : saved.type.Built) (hc : saved.type.collection = some collection)
    (hfree : saved.LeavesClassFree) (hnew : d.isNew = true) (h : d.save c s = (saved, .ok (), t)) :
    ∃ record, t.store.documents collection = s.store.documents collection ++ [record] ∧
      saved.IsRecorded record := by
  have htype := type_of_save hnew h
  rw [htype] at ht hc
  obtain ⟨full, patch, id, hfirst, hdocuments, -⟩ := save_eq_ok_of_new ht hnew hc h
  refine ⟨_, hdocuments, ⟨patch.sets.insert idKey id, by rw [hfirst.saved]; rfl, fun key => ?_⟩, ?_⟩
  · rw [Entries.get?_insert, hfirst.get?_record]
  · have hfull := hfirst.leavesClassFree (hfirst.type ▸ ht) (hfirst.type ▸ hc) hfree
    rw [hfirst.get?_record, if_neg (by decide), get?_classKey hfull hfirst.form, hfirst.saved_type]

/-- **First saves into one collection add the records of the saved documents**, in their order. -/
theorem FirstSaves.documents {c : Catalog} {s t : Session} {saved : List Document}
    {collection : String} (h : FirstSaves c s saved t) (ht : ∀ d ∈ saved, d.type.Built)
    (hc : ∀ d ∈ saved, d.type.collection = some collection)
    (hfree : ∀ d ∈ saved, d.LeavesClassFree) :
    ∃ pairs : List (Document × Object), pairs.map Prod.fst = saved ∧
      t.store.documents collection = s.store.documents collection ++ pairs.map Prod.snd ∧
      ∀ p ∈ pairs, p.1.IsRecorded p.2 := by
  induction h with
  | nil s => exact ⟨[], rfl, (List.append_nil _).symm, by simp⟩
  | cons hnew hsave hrest ih =>
    rw [List.forall_mem_cons] at ht hc hfree
    obtain ⟨record, hdocuments, hrecord⟩ :=
      Document.isRecorded_of_save ht.1 hc.1 hfree.1 hnew hsave
    obtain ⟨pairs, rfl, hrestDocuments, hpairs⟩ := ih ht.2 hc.2 hfree.2
    refine ⟨(_, record) :: pairs, rfl, ?_, List.forall_mem_cons.mpr ⟨hrecord, hpairs⟩⟩
    rw [hrestDocuments, hdocuments, List.append_assoc]
    rfl

/-! ### The query for a type -/

/-- The filter that asks for some classes. -/
def classFilter (names : List String) : Object :=
  [(classKey, .single "$in" (.array (names.map .string)))]

theorem candidateHolds_strings (names : List String) (class? : Option String) :
    candidateHolds (names.map .string) (class?.map .string).toList =
      .ok (class?.any fun name => decide (name ∈ names)) := by
  induction names with
  | nil => cases class? <;> rfl
  | cons first rest ih =>
    have hequal : equalsAny (class?.map .string).toList (.string first) =
        class?.any fun name => decide (name = first) := by
      cases class? with
      | none => rfl
      | some name =>
        simp [equalsAny, Json.sameValue, Json.isNumber, Json.equal, Json.asArray?, beq_eq_decide]
    simp only [List.map_cons, candidateHolds, Json.asObject?, Option.getD_none, Entries.contains,
      hequal]
    cases class? with
    | none => exact ih
    | some name =>
      by_cases hname : name = first
      · simp [hname]
        rfl
      · simpa [hname] using ih

/-- A record meets the filter for some classes if its class is one of them. -/
theorem Object.meets_classFilter {record : Object} {class? : Option String}
    (h : record.get? classKey = class?.map .string) (names : List String) :
    record.meets (classFilter names) = .ok (class?.any fun name => decide (name ∈ names)) := by
  have hlookup : record.lookup classKey = (class?.map .string).toList := by
    rw [lookup_of_segment (show Text.dottedSegments classKey = [classKey] from rfl), h]
  have hcondition : conditionHolds (.single "$in" (.array (names.map .string)))
      (class?.map .string).toList 0 = .ok (class?.any fun name => decide (name ∈ names)) := by
    have hoperators : isOperatorMap [("$in", .array (names.map .string))] = true := by
      have hdollar : Text.beginsWith "$" "$in" = true := rfl
      simp [isOperatorMap, hdollar]
    rw [Json.single, conditionHolds, if_pos hoperators, operatorsHold_cons]
    change candidateHolds (names.map .string) (class?.map .string).toList >>= _ = _
    rw [candidateHolds_strings]
    cases class?.any fun name => decide (name ∈ names) <;> rfl
  rw [meets_eq, classFilter, entriesHold_cons]
  change conditionHolds _ (record.lookup classKey) 0 >>= _ = _
  rw [hlookup, hcondition]
  cases class?.any fun name => decide (name ∈ names) <;> rfl

namespace Selection

/-- The selection of all documents of a type. -/
def ofType (t : DocumentType) : Selection :=
  ⟨t, .empty, [], [], 0, none, none⟩

/-- Every document of a type without parent is selected, and for a subtype those of its classes. -/
theorem runFrom_toQuery_ofType (m : Mapper) (t : DocumentType) (σ : Supply) :
    ((ofType t).toQuery m).runFrom σ =
      (.ok (if t.superclass.isSome then classFilter (classNames m.catalog t) else []), σ) := by
  have hempty : Filter.empty.toQuery m.catalog t = pure [] := rfl
  simp only [toQuery, ofType, hempty, pure_bind, Entries.contains]
  by_cases hsuper : t.superclass.isSome = true
  · simp only [hsuper]
    rfl
  · simp only [hsuper]
    rfl

/-- **What the selection of a type finds is read and resolved.** -/
theorem runFrom_all_ofType {m : Mapper} {t : DocumentType} {s : Session} {found : List Object}
    (h : s.store.find (ofType t).collection
      (if t.superclass.isSome then classFilter (classNames m.catalog t) else []) .none = .ok found) :
    ((ofType t).all m).runFrom s =
      (Work.onStore (resolveDocuments m.catalog ((ofType t).resolvedHops m)
        (found.map fun raw => Document.ofStorage m.catalog (m.catalog.concreteType t raw) raw))).runFrom
          s := by
  have hoptions : (ofType t).findOptions m = .ok .none := rfl
  simp only [all, Work.runFrom_bind, Work.runFrom_drawing, Work.runFrom_ofExcept, Work.runFrom_ask,
    runFrom_toQuery_ofType, hoptions, h]
  rfl

end Selection

/-! ### The documents of a hierarchy -/

namespace Catalog

variable {c : Catalog} {t s d : DocumentType}

/-- A type without parent descends from itself only. -/
theorem Descends.eq_of_no_parent (h : c.Descends t s) (ht : t.superclass = none) : t = s := by
  rcases Relation.ReflTransGen.cases_head h with rfl | ⟨parent, hparent, -⟩
  · rfl
  · rw [hparent.1] at ht
    cases ht

/-- What descends from a type with parent has a parent, too. -/
theorem Descends.isSome_superclass (h : c.Descends t s) (hs : s.superclass.isSome = true) :
    t.superclass.isSome = true := by
  cases ht : t.superclass with
  | none =>
    rw [h.eq_of_no_parent ht] at ht
    rw [ht] at hs
    cases hs
  | some p => rfl

namespace Kept

variable (h : c.Kept) (hparents : c.KeepsParents)

include h

/-- **A record is read as the type that it was saved as**, by the selection of any type from which
that one descends. -/
theorem concreteType_of_recorded (ht : c.get? t.name = some t) (hs : c.get? s.name = some s)
    (hparents : c.KeepsParents) (hts : c.Descends t s) {record : Object}
    (hclass : record.get? classKey = t.recordedClass?.map .string) : c.concreteType s record = t := by
  rw [concreteType, hclass, DocumentType.recordedClass?]
  by_cases hpolymorphic : t.isPolymorphic = true
  · have hsubtype := (h.descends_iff hparents ht hs).mp hts
    simp [hpolymorphic, Json.asString?, h.byClassName? ht, hsubtype]
  · have hsuper : t.superclass = none := by
      simpa [DocumentType.isPolymorphic] using (Bool.or_eq_false_iff.mp
        (Bool.eq_false_iff.mpr hpolymorphic)).2
    obtain rfl := hts.eq_of_no_parent hsuper
    simp [hpolymorphic]

/-- **A record meets the query for a type if it was saved as the type or as one below it.** -/
theorem meets_of_recorded {root : DocumentType} (ht : c.get? t.name = some t)
    (hs : c.get? s.name = some s) (hparents : c.KeepsParents) (htroot : c.Descends t root)
    (hsroot : c.Descends s root) {record : Object}
    (hclass : record.get? classKey = t.recordedClass?.map .string) :
    ∃ holds, record.meets (if s.superclass.isSome then classFilter (Selection.classNames c s) else [])
      = .ok holds ∧ (holds = true ↔ c.Descends t s) := by
  by_cases hsuper : s.superclass.isSome = true
  · rw [if_pos hsuper, Object.meets_classFilter hclass]
    refine ⟨_, rfl, ?_⟩
    rw [DocumentType.recordedClass?]
    by_cases hpolymorphic : t.isPolymorphic = true
    · simp [hpolymorphic, mem_classNames_iff ht, h.descends_iff hparents ht hs]
    · have hnone : t.superclass.isSome ≠ true :=
        Bool.eq_false_iff.mp (Bool.or_eq_false_iff.mp (Bool.eq_false_iff.mpr hpolymorphic)).2
      simpa [hpolymorphic] using fun hts => hnone (Descends.isSome_superclass hts hsuper)
  · rw [if_neg hsuper]
    have hsame : s = root := hsroot.eq_of_no_parent (by simpa using hsuper)
    exact ⟨true, rfl, iff_of_true rfl (hsame ▸ htroot)⟩

end Kept

end Catalog

/-- A search that neither sorts nor cuts finds the records that meet the filter. -/
theorem Store.find_none {s : Store} {collection : String} {filter : Object} {found : List Object}
    (h : meeting filter (s.documents collection) = .ok found) :
    s.find collection filter .none = .ok found := by
  rw [find, h]
  rfl

/-- Pairs of documents and records, where the documents are of a hierarchy. -/
structure Catalog.Recorded (c : Catalog) (root : DocumentType)
    (pairs : List (Document × Object)) : Prop where
  registered : ∀ p ∈ pairs, c.get? p.1.type.name = some p.1.type
  descends : ∀ p ∈ pairs, c.Descends p.1.type root
  recorded : ∀ p ∈ pairs, p.1.IsRecorded p.2

open Classical in
/-- **The selection of a type finds the records of its descendants and reads them as what they were
saved as.** -/
theorem Catalog.Recorded.runFrom_all_ofType {m : Mapper} {root type : DocumentType}
    {pairs : List (Document × Object)} {t : Session} (h : m.catalog.Recorded root pairs)
    (hkept : m.catalog.Kept) (hparents : m.catalog.KeepsParents)
    (htype : m.catalog.get? type.name = some type) (hdescends : m.catalog.Descends type root)
    (hdocuments : t.store.documents (Selection.ofType type).collection = pairs.map Prod.snd) :
    ((Selection.ofType type).all m).runFrom t =
      (Work.onStore (resolveDocuments m.catalog ((Selection.ofType type).resolvedHops m)
        ((pairs.filter fun p => m.catalog.Descends p.1.type type).map fun p =>
          Document.ofStorage m.catalog p.1.type p.2))).runFrom t := by
  have hmeets := fun p hp => hkept.meets_of_recorded (h.registered p hp) htype hparents
    (h.descends p hp) hdescends (h.recorded p hp).class_
  have hfound : meeting (if type.superclass.isSome then
      classFilter (Selection.classNames m.catalog type) else []) (pairs.map Prod.snd) =
        .ok ((pairs.filter fun p => m.catalog.Descends p.1.type type).map Prod.snd) := by
    refine meeting_eq_ok_iff.mpr ⟨List.forall_mem_map.mpr fun p hp => ?_, ?_⟩
    · obtain ⟨holds, hholds, -⟩ := hmeets p hp
      exact ⟨holds, hholds⟩
    · rw [List.filter_map]
      refine congrArg _ (List.filter_congr fun p hp => ?_)
      obtain ⟨holds, hholds, hiff⟩ := hmeets p hp
      simp only [Function.comp_apply, hholds, Except.toOption]
      by_cases hp' : m.catalog.Descends p.1.type type
      · simp [hp', hiff.mpr hp']
      · simp [hp', Bool.eq_false_iff.mpr fun htrue => hp' (hiff.mp htrue)]
  rw [← hdocuments] at hfound
  rw [Selection.runFrom_all_ofType (Store.find_none hfound), List.map_map]
  congr 3
  refine List.map_congr_left fun p hp => ?_
  obtain ⟨hmem, hp'⟩ := List.mem_filter.mp hp
  rw [Function.comp_apply, hkept.concreteType_of_recorded (h.registered p hmem) htype hparents
    (of_decide_eq_true hp') (h.recorded p hmem).class_]

open Classical in
/-- **The documents of a type** are those of the new documents of its hierarchy that were saved as
the type or as one below it, each once and in the order of the saves, and each is read from its
record as the type that it was saved as. If the selection asks for it, their references are resolved;
only this can fail, and it changes neither types nor stored forms.

All types are registered, and no field of them is stored under the name of the class. But no
attribute that is not declared may have its name, either, unless it is null. -/
theorem Mapper.objects_load_descendants {m : Mapper} {root : DocumentType} {collection : String}
    {s t : Session} {saved : List Document} (hregistered : m.catalog.Registered)
    (hparents : m.catalog.KeepsParents)
    (hclass : ∀ name type, m.catalog.get? name = some type →
      ∀ f ∈ type.fields, f.storageName ≠ classKey)
    (hroot : root.collection = some collection) (hempty : s.store.documents collection = [])
    (hsaves : FirstSaves m.catalog s saved t)
    (htypes : ∀ d ∈ saved,
      m.catalog.get? d.type.name = some d.type ∧ m.catalog.Descends d.type root)
    (hvalues : ∀ d ∈ saved, d.type.field? classKey = none →
      ∀ v, (classKey, v) ∈ d.values → v = .null) :
    ∃ pairs : List (Document × Object), pairs.map Prod.fst = saved ∧
      t.store.documents collection = pairs.map Prod.snd ∧ (∀ p ∈ pairs, p.1.IsRecorded p.2) ∧
      ∀ type, m.catalog.get? type.name = some type → m.catalog.Descends type root →
        ∃ q, m.objects type.name = .ok q ∧
          let found := (pairs.filter fun p => m.catalog.Descends p.1.type type).map fun p =>
            Document.ofStorage m.catalog p.1.type p.2
          (q.all m).runFrom t =
              (Work.onStore (resolveDocuments m.catalog (q.resolvedHops m) found)).runFrom t ∧
            (q.resolvedHops m = 0 → (q.all m).runFrom t = (.ok found, t)) ∧
            ∀ loaded u, (q.all m).runFrom t = (.ok loaded, u) →
              loaded.map (fun d => (d.type, d.raw)) = found.map fun d => (d.type, d.raw) := by
  have hkept := hregistered.kept
  have hcollection : ∀ type : DocumentType, m.catalog.get? type.name = some type →
      m.catalog.Descends type root → type.collection = some collection := fun type htype hdescends =>
    (hparents.collection_of_descends htype hdescends).trans hroot
  obtain ⟨pairs, rfl, hdocuments, hpairs⟩ := hsaves.documents
    (fun d hd => (hkept.declared (htypes d hd).1).built)
    (fun d hd => hcollection _ (htypes d hd).1 (htypes d hd).2)
    (fun d hd => ⟨hclass _ _ (htypes d hd).1, hvalues d hd⟩)
  rw [hempty, List.nil_append] at hdocuments
  have hrecorded : m.catalog.Recorded root pairs :=
    ⟨fun p hp => (htypes _ (List.mem_map_of_mem hp)).1,
      fun p hp => (htypes _ (List.mem_map_of_mem hp)).2, hpairs⟩
  refine ⟨pairs, rfl, hdocuments, hpairs, fun type htype hdescends => ?_⟩
  have htypeCollection := hcollection type htype hdescends
  have hobjects : m.objects type.name = .ok (Selection.ofType type) := by
    have hembedded : type.isEmbedded = false := by simp [DocumentType.isEmbedded, htypeCollection]
    simp only [objects, Catalog.get, htype]
    exact if_neg (by simp [hembedded])
  have hrun := hrecorded.runFrom_all_ofType (t := t) hkept hparents htype hdescends (by
    rw [← hdocuments, Selection.ofType, Selection.collection, htypeCollection, Option.getD_some])
  refine ⟨Selection.ofType type, hobjects, hrun, fun hhops => ?_, fun loaded u hloaded => ?_⟩
  · rw [hrun, Work.runFrom_onStore, resolveDocuments, if_pos hhops]
  · rw [hrun, Work.runFrom_onStore, Prod.mk.injEq] at hloaded
    exact (resolveDocuments_eq_ok (Prod.ext hloaded.1 rfl)).2

/-! ### Notes and memos -/

/-- Notes take any attributes, and there can be types below them. -/
def noteType : DocumentType where
  name := "Note"
  className := "Note"
  collection := some "notes"
  fields := [{ Field.ofKind "id" (.scalar .objectId) with storageName := idKey }]
  primaryKey := some "id"
  isDynamic := true
  allowsInheritance := true
  superclass := none

/-- Memos are notes. -/
def memoType : DocumentType :=
  { noteType with name := "Memo", className := "Note.Memo", superclass := some "Note" }

/-- A catalog of notes and memos. -/
def noteCatalog : Catalog :=
  (Catalog.empty.add noteType).add memoType

/-- A mapper of notes and memos. -/
def noteMapper : Mapper := ⟨noteCatalog, .standard⟩

theorem noteType_allDeclared : noteType.AllDeclared := by
  have hbuilt : noteType.Built :=
    ⟨(((Declaration.document "Note").inCollection "notes").dynamic).inheritable, rfl⟩
  exact ⟨⟨hbuilt, by decide, .inl ⟨rfl, rfl⟩⟩, trivial, trivial⟩

theorem memoType_allDeclared : memoType.AllDeclared := by
  have hbuilt : memoType.Built := ⟨Declaration.subtype "Memo" noteType, rfl⟩
  exact ⟨⟨hbuilt, by decide, .inr ⟨noteType, rfl, rfl⟩⟩, trivial, trivial⟩

theorem noteCatalog_registered : noteCatalog.Registered := by
  have hnote : (Catalog.empty.add noteType).Registered := .register .empty noteType_allDeclared rfl
  exact .register hnote memoType_allDeclared rfl

theorem noteCatalog_cases {name : String} {t : DocumentType} (h : noteCatalog.get? name = some t) :
    t = noteType ∨ t = memoType := by
  have hmem : (name, t) ∈ noteCatalog.types := Entries.mem_of_get? h
  rcases List.mem_pair.mp hmem with heq | heq
  · exact .inl (Prod.mk.inj heq).2
  · exact .inr (Prod.mk.inj heq).2

theorem noteCatalog_keepsParents : noteCatalog.KeepsParents := by
  intro name t ht p hp
  rcases noteCatalog_cases ht with rfl | rfl
  · cases hp
  · obtain rfl := Option.some.inj hp
    exact ⟨noteType, rfl, rfl, rfl⟩

theorem noteCatalog_leavesClassFree {name : String} {t : DocumentType}
    (h : noteCatalog.get? name = some t) : ∀ f ∈ t.fields, f.storageName ≠ classKey := by
  rcases noteCatalog_cases h with rfl | rfl <;> decide

theorem memoType_descends : noteCatalog.Descends memoType noteType :=
  .single ⟨rfl, rfl⟩

/-- The save of a new memo. -/
def memoSave : Document × Except Error Unit × Session :=
  (Document.new memoType).save noteCatalog .empty

/-- The save of a new note after it. -/
def noteSave : Document × Except Error Unit × Session :=
  (Document.new noteType).save noteCatalog memoSave.2.2

theorem firstSaves_notes :
    FirstSaves noteCatalog .empty [memoSave.1, noteSave.1] noteSave.2.2 := by
  have hmemo : (Document.new memoType).save noteCatalog .empty =
      (memoSave.1, .ok (), memoSave.2.2) := rfl
  have hnote : noteSave = (noteSave.1, .ok (), noteSave.2.2) := Prod.ext rfl (Prod.ext rfl rfl)
  exact .cons rfl hmemo (.cons rfl hnote (.nil _))

/-- What was saved without attributes has only a key. -/
theorem null_of_keys {values : List (String × Value)} {v : Value}
    (hkeys : values.map Prod.fst = ["id"]) (h : (classKey, v) ∈ values) : v = .null := by
  have hmem : classKey ∈ ["id"] := hkeys ▸ List.mem_map_of_mem (f := Prod.fst) h
  exact absurd hmem (by decide)

/-- Of a memo and a note the memo is found as a memo. -/
theorem objects_load_descendants_memo :
    noteCatalog.Registered ∧ noteCatalog.KeepsParents ∧
      FirstSaves noteCatalog .empty [memoSave.1, noteSave.1] noteSave.2.2 ∧
      ∃ q d, noteMapper.objects "Memo" = .ok q ∧
        (q.all noteMapper).runFrom noteSave.2.2 = (.ok [d], noteSave.2.2) ∧ d.type = memoType := by
  have hcollection : noteType.collection = some "notes" := rfl
  obtain ⟨pairs, hpairs, -, -, hall⟩ := Mapper.objects_load_descendants (m := noteMapper)
    noteCatalog_registered noteCatalog_keepsParents (fun _ _ => noteCatalog_leavesClassFree)
    hcollection rfl firstSaves_notes
    (List.forall_mem_cons.mpr ⟨⟨rfl, memoType_descends⟩, List.forall_mem_singleton.mpr ⟨rfl, .refl⟩⟩)
    (List.forall_mem_cons.mpr ⟨fun _ _ => null_of_keys rfl, List.forall_mem_singleton.mpr
      fun _ _ => null_of_keys rfl⟩)
  obtain ⟨q, hq, -, hloaded, -⟩ := hall memoType rfl memoType_descends
  obtain rfl : Selection.ofType memoType = q := Except.ok.inj hq
  obtain ⟨d, hd⟩ : ∃ d, ((Selection.ofType memoType).all noteMapper).runFrom noteSave.2.2 =
      (.ok [d], noteSave.2.2) := ⟨_, rfl⟩
  refine ⟨noteCatalog_registered, noteCatalog_keepsParents, firstSaves_notes, _, d, hq, hd, ?_⟩
  have hfound := Except.ok.inj (congrArg Prod.fst (hd.symm.trans (hloaded rfl)))
  have hmem : d ∈ [d] := List.mem_singleton_self d
  rw [hfound] at hmem
  obtain ⟨p, hp, rfl⟩ := List.mem_map.mp hmem
  obtain ⟨hp, hdecided⟩ := List.mem_filter.mp hp
  have hdescends : noteMapper.catalog.Descends p.1.type memoType := by simpa using hdecided
  change p.1.type = memoType
  rcases List.mem_pair.mp (hpairs ▸ List.mem_map_of_mem hp : p.1 ∈ [memoSave.1, noteSave.1]) with
    hmemo | hnote
  · exact congrArg Document.type hmemo
  · rw [hnote] at hdescends ⊢
    exact hdescends.eq_of_no_parent rfl

/-- A memo with an attribute that is spelled like the class. -/
def misnamedMemo : Document :=
  ⟨memoType, [(classKey, .string "x")], .empty, none⟩

/-- It can be made and saved, but then no memo is found. -/
theorem misnamedMemo_not_loaded :
    noteCatalog.Registered ∧ noteCatalog.KeepsParents ∧
      (∀ name type, noteCatalog.get? name = some type →
        ∀ f ∈ type.fields, f.storageName ≠ classKey) ∧
      Document.withValues memoType [(classKey, .string "x")] = .ok misnamedMemo ∧
      ∃ saved after q, FirstSaves noteCatalog .empty [saved] after ∧ saved.type = memoType ∧
        noteCatalog.Descends memoType noteType ∧ noteMapper.objects "Memo" = .ok q ∧
        (q.all noteMapper).runFrom after = (.ok [], after) := by
  have hsave : misnamedMemo.save noteCatalog .empty =
      ((misnamedMemo.save noteCatalog .empty).1, .ok (),
        (misnamedMemo.save noteCatalog .empty).2.2) := rfl
  exact ⟨noteCatalog_registered, noteCatalog_keepsParents, fun _ _ => noteCatalog_leavesClassFree,
    rfl, _, _, _, .cons rfl hsave (.nil _), rfl, memoType_descends, rfl, rfl⟩

end DocumentMapper
