import DocumentMapper.Proofs.Faithfulness
import DocumentMapper.Proofs.SteadyDefaults

/-!
# What has stored parts

A list or a dict is stored if its field takes and admits it and its parts are stored.

A document that is not stored by its key is stored if its field accepts a document of its type, its
attributes are stored and so are the defaults that stand for what it misses.

## Main results

* `Place.gives_enter`: the parts of what is stored are stored;
* `Place.succeeds_list`, `Place.succeeds_dict`, `Place.succeeds_document`: what has stored parts and
  is accepted is stored.
-/

namespace DocumentMapper

open Text Drawing

/-! ### Parts that are stored -/

theorem Drawing.Alike.succeeds {α : Type} {x y : Drawing α} (h : x.Alike y) (hx : x.Succeeds) :
    y.Succeeds := by
  intro s
  obtain ⟨a, t, hrun, -⟩ := hx s
  exact ⟨a, t, (h s a t).mp hrun, trivial⟩

theorem succeeds_mapM {items : List Value} {form : Value → Drawing Json}
    (h : ∀ v ∈ items, (form v).Succeeds) : (items.mapM form).Succeeds := by
  induction items with
  | nil => exact .pure _
  | cons v vs ih =>
    obtain ⟨hv, hvs⟩ := List.forall_mem_cons.mp h
    rw [List.mapM_cons]
    exact .bind hv fun _ => .bind (ih hvs) fun _ => .pure _

theorem succeeds_entriesBy {entries : List (String × Value)} {form : Value → Drawing Json}
    (h : ∀ e ∈ entries, (form e.2).Succeeds) : (entriesBy form entries).Succeeds := by
  induction entries with
  | nil => exact .pure _
  | cons e rest ih =>
    obtain ⟨he, hrest⟩ := List.forall_mem_cons.mp h
    rw [entriesBy_cons]
    exact .bind he fun _ => .bind (ih hrest) fun _ => .pure _

/-- A value without objections is checked first, and nothing comes of it. -/
theorem Field.succeeds_check_bind {f : Field} {v : Value} {α : Type} {x : Unit → Drawing α}
    (h : f.validator.bind (·.objection? v) = none) (hx : (x ()).Succeeds) :
    (f.check v >>= x).Succeeds := by
  rw [check_eq_pure h]
  exact .bind (.pure ()) fun _ => hx

/-! ### Attributes that are stored -/

/-- What declared fields store is stored one by one. -/
theorem encoder_of_assembleFields {fields : List Field} {key : Option String}
    {encoders : List (String × Encoder)} {start p : Patch}
    (h : (assembleFields fields key encoders start).Gives p) {f : Field} (hf : f ∈ fields) :
    ∃ j, (match encoderOf encoders f.name with
      | some encode => encode f
      | none => f.encodeDefault).Gives j := by
  induction fields generalizing start with
  | nil => cases hf
  | cons g gs ih =>
    rw [assembleFields_cons] at h
    obtain ⟨j, hj, hrest⟩ := Gives.of_bind h
    rcases List.mem_cons.mp hf with rfl | hf
    · exact ⟨j, hj⟩
    · split at hrest <;> exact ih hrest hf

/-- What attributes store that are not declared is stored one by one. -/
theorem encoder_of_addUndeclared {fields : List Field} {encoders : List (String × Encoder)}
    {start p : Patch} (h : (addUndeclared fields encoders start).Gives p) {name : String}
    {encode : Encoder} (hencode : (name, encode) ∈ encoders)
    (hundeclared : (fields.any fun f => f.name == name) = false) :
    ∃ j, (encode (.any name)).Gives j := by
  induction encoders generalizing start with
  | nil => cases hencode
  | cons e rest ih =>
    obtain ⟨k, first⟩ := e
    simp only [addUndeclared] at h
    rcases List.mem_cons.mp hencode with heq | hencode
    · obtain ⟨rfl, rfl⟩ := Prod.mk.inj heq
      rw [hundeclared] at h
      obtain ⟨j, hj, -⟩ := Gives.of_bind h
      exact ⟨j, hj⟩
    · split at h
      · exact ih h hencode
      · obtain ⟨_, -, hrest⟩ := Gives.of_bind h
        exact ih hrest hencode

theorem succeeds_assembleFields {fields : List Field} {key : Option String}
    {encoders : List (String × Encoder)}
    (h : ∀ f ∈ fields, (match encoderOf encoders f.name with
      | some encode => encode f
      | none => f.encodeDefault).Succeeds) (p : Patch) :
    (assembleFields fields key encoders p).Succeeds := by
  induction fields generalizing p with
  | nil => exact .pure _
  | cons f fs ih =>
    obtain ⟨hf, hfs⟩ := List.forall_mem_cons.mp h
    rw [assembleFields_cons]
    refine .bind hf fun j => ?_
    split
    · exact ih hfs p
    · exact ih hfs _

theorem succeeds_addUndeclared {fields : List Field} {encoders : List (String × Encoder)}
    (h : ∀ e ∈ encoders, (fields.any fun f => f.name == e.1) = false → (e.2 (.any e.1)).Succeeds)
    (p : Patch) : (addUndeclared fields encoders p).Succeeds := by
  induction encoders generalizing p with
  | nil => exact .pure _
  | cons e rest ih =>
    obtain ⟨k, encode⟩ := e
    obtain ⟨he, hrest⟩ := List.forall_mem_cons.mp h
    simp only [addUndeclared]
    split
    · exact ih hrest p
    · rename_i hundeclared
      exact .bind (he (by simpa using hundeclared)) fun _ => ih hrest _

/-- What a field for anything stores succeeds if the value on its own does. -/
theorem Value.succeeds_encode_any {v : Value} {name : String} (h : v.plain.Succeeds) :
    (v.encode (.any name)).Succeeds := by
  cases v with
  | null => exact .pure _
  | list | dict | document | linked => exact Field.succeeds_check_bind rfl h
  | bool | int | float | string | datetime | reference => exact Field.succeeds_check_bind rfl h

namespace Document

variable {doc : Document}

/-- The attributes of a stored document are stored. -/
theorem attribute_of_fullPatch {p : Patch} (h : doc.fullPatch.Gives p) (name : String) :
    ∃ j, (Place.inDocument doc name).toJson.Gives j := by
  rw [fullPatch_eq] at h
  obtain ⟨middle, hdeclared, hundeclared⟩ := Gives.of_bind h
  cases hv : Entries.get? doc.values name with
  | none => exact ⟨.null, by simp [Place.inDocument, hv, Place.toJson]⟩
  | some v =>
    have hencoder := encoderOf_encodersOf doc.values name
    rw [hv, Option.map_some] at hencoder
    simp only [Place.inDocument, DocumentType.describe?, hv]
    cases hf : doc.type.field? name with
    | some f =>
      obtain ⟨j, hj⟩ := encoder_of_assembleFields hdeclared (List.mem_of_find?_eq_some hf)
      have hname : f.name = name := by simpa using List.find?_some hf
      rw [hname, hencoder] at hj
      exact ⟨j, hj⟩
    | none =>
      obtain ⟨j, hj⟩ := encoder_of_addUndeclared hundeclared (Entries.mem_of_get? hencoder)
        (any_fields_eq_false_iff.mpr hf)
      refine ⟨j, ?_⟩
      dsimp only
      split
      · exact hj
      · exact Value.plain_of_encode_any hj

/-- The defaults that stand for what a stored document misses are stored. -/
theorem default_of_fullPatch {p : Patch} (h : doc.fullPatch.Gives p) {f : Field}
    (hf : f ∈ doc.type.fields) (hnone : Entries.get? doc.values f.name = none) :
    ∃ j, f.encodeDefault.Gives j := by
  rw [fullPatch_eq] at h
  obtain ⟨middle, hdeclared, -⟩ := Gives.of_bind h
  simpa [hnone] using encoder_of_assembleFields hdeclared hf

/-- **A document is stored if its attributes are**, and so are the defaults that stand for what it
misses. -/
theorem succeeds_fullPatch (hbuilt : doc.type.Built) (hkeys : (doc.values.map Prod.fst).Nodup)
    (hattributes : ∀ name, (Place.inDocument doc name).toJson.Succeeds)
    (hdefaults : ∀ f ∈ doc.type.fields, Entries.get? doc.values f.name = none →
      f.encodeDefault.Succeeds) : doc.fullPatch.Succeeds := by
  rw [fullPatch_eq]
  refine .bind (succeeds_assembleFields (fun f hf => ?_) _) fun p =>
    succeeds_addUndeclared (fun e he hundeclared => ?_) p
  · rw [encoderOf_encodersOf]
    have hattribute := hattributes f.name
    have hfield : doc.type.field? f.name = some f := hbuilt.field?_of_mem hf
    cases hv : Entries.get? doc.values f.name with
    | none => exact hdefaults f hf hv
    | some v =>
      simpa [Place.inDocument, DocumentType.describe?, hfield, hv, Place.toJson] using hattribute
  · obtain ⟨name, encode⟩ := e
    have hnone := any_fields_eq_false_iff.mp hundeclared
    have hattribute := hattributes name
    have hget := Entries.get?_of_mem (by simpa using hkeys) he
    have hencoder := encoderOf_encodersOf doc.values name
    rw [encoderOf, hget] at hencoder
    obtain ⟨v, hv, hencode⟩ := Option.map_eq_some_iff.mp hencoder.symm
    subst hencode
    simp only [Place.inDocument, DocumentType.describe?, hnone, hv] at hattribute
    split at hattribute
    · exact hattribute
    · exact v.succeeds_encode_any hattribute

end Document

/-! ### Places -/

namespace Place

/-- A document that is stored by its key. -/
def StoredByKey (p : Place) : Prop :=
  ∃ f doc, p = ⟨some f, some (.document doc)⟩ ∧ f.kind.isReference = true

/-- **The parts of what is stored are stored**, unless it is a document that is stored by its
key. -/
theorem gives_enter {p : Place} {j : Json} (h : p.toJson.Gives j) (hp : ¬ p.StoredByKey)
    (s : String) : ∃ j, (p.enter s).1.toJson.Gives j := by
  obtain ⟨f, v⟩ := p
  have hnothing : ∀ g : Option Field, ∃ j, (Place.mk g none).toJson.Gives j :=
    fun _ => ⟨.null, gives_pure.mpr rfl⟩
  cases v with
  | none => exact hnothing _
  | some v =>
    cases v with
    | list items =>
      obtain ⟨js, -, hitems, -⟩ := gives_list h
      simp only [enter]
      cases position? s with
      | none => exact hnothing _
      | some i =>
        rw [Option.bind_some]
        by_cases hi : i < items.length
        · rw [List.getElem?_eq_getElem hi]
          exact ⟨_, hitems i hi⟩
        · rw [List.getElem?_eq_none (by omega)]
          exact hnothing _
    | dict entries => exact ⟨_, gives_entry h s⟩
    | document doc =>
      have hclosed : ¬ Opaque ⟨f, some (.document doc)⟩ := by
        intro hclosed
        cases hclosed with
        | reference hf => exact hp ⟨_, _, rfl, hf⟩
      obtain ⟨patch, hpatch, -⟩ := gives_document h hclosed
      exact Document.attribute_of_fullPatch hpatch s
    | _ => exact hnothing _

/-- **A list is stored if its items are** and its field accepts it. -/
theorem succeeds_list {f : Option Field} {items : List Value}
    (htakes : ∀ g, f = some g → g.TakesLists) (hadmits : ∀ g, f = some g → g.Admits (.list items))
    (hitems : ∀ v ∈ items, (Place.mk (f.bind (·.kind.element?)) (some v)).toJson.Succeeds) :
    (Place.mk f (some (.list items))).toJson.Succeeds := by
  rw [toJson_list htakes hadmits]
  exact .bind (succeeds_mapM hitems) fun _ => .pure _

/-- **A dict is stored if its values are** and its field accepts it. -/
theorem succeeds_dict {f : Option Field} {entries : List (String × Value)}
    (htakes : ∀ g, f = some g → g.TakesDicts) (hadmits : ∀ g, f = some g → g.Admits (.dict entries))
    (hvalues : ∀ e ∈ entries, (Place.mk ((f.bind (·.kind.element?)).map (·.renamed e.1))
      (some e.2)).toJson.Succeeds) :
    (Place.mk f (some (.dict entries))).toJson.Succeeds := by
  rw [toJson_dict htakes hadmits]
  refine .bind (succeeds_entriesBy fun e he => ?_) fun _ => .pure _
  refine Alike.succeeds (fun s a t => ?_) (hvalues e he)
  exact (toJson_renamed _ e.2 e.1 s a t).symm

/-- **A document is stored** in place of another one of its type if its attributes are and its field
accepts it, unless it is stored by its key. -/
theorem succeeds_document {f : Option Field} {old doc : Document} {j : Json}
    (hold : (Place.mk f (some (.document old))).toJson.Gives j) (htype : doc.type = old.type)
    (hadmits : ∀ g, f = some g → g.Admits (.document doc))
    (hp : ¬ StoredByKey ⟨f, some (.document doc)⟩) (hdoc : doc.fullPatch.Succeeds) :
    (Place.mk f (some (.document doc))).toJson.Succeeds := by
  cases f with
  | none => exact .bind hdoc fun _ => .pure _
  | some g =>
    obtain ⟨-, -, hform⟩ := Gives.of_bind hold
    refine Field.succeeds_check_bind (hadmits g rfl).1 ?_
    cases hkind : g.kind with
    | scalar s =>
      simp only [hkind] at hform ⊢
      split at hform
      · rename_i hany
        rw [if_pos hany]
        exact .bind hdoc fun _ => .pure _
      · exact absurd hform not_gives_throw
    | embedded t =>
      simp only [hkind] at hform ⊢
      split at hform
      · rename_i hsubtype
        rw [htype, if_pos hsubtype]
        exact .bind hdoc fun _ => .pure _
      · exact absurd hform not_gives_throw
    | reference | genericReference => exact absurd ⟨g, doc, rfl, by rw [hkind]; rfl⟩ hp
    | list | dict =>
      simp only [hkind] at hform
      exact absurd hform not_gives_throw

end Place

end DocumentMapper
