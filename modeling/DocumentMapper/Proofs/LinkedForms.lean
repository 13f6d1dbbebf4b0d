import DocumentMapper.Proofs.LinkedDocuments
import DocumentMapper.Proofs.StoredDocuments

/-!
# Links have no part in stored forms

A reference to a document of a declared type is stored as an id, and a document that is linked there
is stored by its key. So a value is stored alike before and after documents are put in place of its
references, as long as each reference stands where a field declares it and the key of each document
is stored as the id that led to it.

A field can refuse values. It is stored alike as long as it refuses a document that is linked where
it refuses the reference.

## Main results

* `ReferencesDeclared`: whether the references in a value stand where they are declared;
* `Value.encode_linkedBy`, `Document.stored_linkedBy`: what is stored alike;
* `Document.changedPaths_linkedBy`: the changed paths are the same without further conditions.
-/

namespace DocumentMapper

open Drawing

variable {c : Catalog} {g : ObjectKey → Option Document} {t : DocumentType} {f : Field}

/-- A computation with a certain outcome that draws nothing. -/
theorem Drawing.Yields.eq_pure {α : Type} {x : Drawing α} {a : α} (h : x.Yields a) :
    x = Pure.pure a :=
  funext h

/-! ### Values without references -/

mutual

/-- Where no document is found a value is left alone. -/
theorem Value.linkedBy_nowhere (c : Catalog) : ∀ v : Value, v.linkedBy c (fun _ => none) = v
  | .reference r => by simp [Value.linkedBy]
  | .list items => congrArg Value.list (linkedItems_nowhere c items)
  | .dict entries => congrArg Value.dict (linkedEntries_nowhere c entries)
  | .document doc => congrArg Value.document (Document.linkedBy_nowhere c doc)
  | .null => rfl
  | .bool _ => rfl
  | .int _ => rfl
  | .float _ => rfl
  | .string _ => rfl
  | .datetime _ => rfl
  | .linked _ => rfl
termination_by structural v => v

theorem linkedItems_nowhere (c : Catalog) : ∀ vs : List Value,
    linkedItems c (fun _ => none) vs = vs
  | [] => rfl
  | v :: vs => congrArg₂ List.cons (v.linkedBy_nowhere c) (linkedItems_nowhere c vs)
termination_by structural vs => vs

theorem linkedEntries_nowhere (c : Catalog) : ∀ es : List (String × Value),
    linkedEntries c (fun _ => none) es = es
  | [] => rfl
  | (k, v) :: rest =>
    congrArg₂ (fun v rest => (k, v) :: rest) (v.linkedBy_nowhere c) (linkedEntries_nowhere c rest)
termination_by structural es => es

theorem Document.linkedBy_nowhere (c : Catalog) : ∀ d : Document,
    d.linkedBy c (fun _ => none) = d
  | ⟨type, values, dirty, raw⟩ =>
    congrArg (fun values => Document.mk type values dirty raw) (linkedEntries_nowhere c values)
termination_by structural d => d

end

theorem Value.linkedBy_of_references_nil {v : Value} (h : v.references = []) :
    v.linkedBy c g = v := by
  have hagree : AgreeOn c g (fun _ => none) v.references := by simp [h, AgreeOn]
  rw [v.linkedBy_congr hagree, v.linkedBy_nowhere]

/-! ### Rules -/

/-- Whether a rule objects to a document that is linked as it does to the reference. -/
def Validator.IsImpartial (rule : Validator) : Prop :=
  ∀ (c : Catalog) (g : ObjectKey → Option Document) (v : Value),
    rule.objection? (v.linkedBy c g) = rule.objection? v

theorem Validator.isImpartial_nonNegative : nonNegative.IsImpartial := by
  intro c g v
  cases v with
  | reference r =>
    simp only [Value.linkedBy]
    split <;> rfl
  | _ => rfl

theorem Validator.isImpartial_nonEmpty : nonEmpty.IsImpartial := by
  intro c g v
  cases v with
  | reference r =>
    simp only [Value.linkedBy]
    split <;> rfl
  | list items => cases items <;> rfl
  | dict entries => cases entries <;> rfl
  | _ => rfl

/-- The same for the rule of a field, if it has one. -/
def Field.IsImpartial (f : Field) : Prop :=
  ∀ rule, f.validator = some rule → rule.IsImpartial

theorem Field.IsImpartial.of_none (h : f.validator = none) : f.IsImpartial := by
  intro rule hrule
  rw [h] at hrule
  cases hrule

theorem Field.IsImpartial.check (h : f.IsImpartial) (v : Value) :
    f.check (v.linkedBy c g) = f.check v := by
  unfold Field.check
  cases hrule : f.validator with
  | none => rfl
  | some rule => rw [Option.bind_some, Option.bind_some, h rule hrule c g v]

/-! ### References that are declared -/

/-- The fields as which a type stores an attribute: those of its name, or else one that holds
anything. -/
inductive DocumentType.StoresAs (t : DocumentType) : String → Field → Prop
  | declared {f : Field} (hf : f ∈ t.fields) : StoresAs t f.name f
  | undeclared {name : String} (h : ∀ f ∈ t.fields, f.name ≠ name) : StoresAs t name (.any name)

/-- The references in a value stand where a field declares references to documents of a type: the
field itself, that of the parts of a list or dict, or one of a document that is embedded. -/
inductive ReferencesDeclared : Value → Field → Prop
  | none {v : Value} {f : Field} (h : v.references = []) : ReferencesDeclared v f
  | reference {r : Reference} {f : Field} {typeName : String} (hkind : f.kind = .reference typeName)
      (hrule : f.IsImpartial) : ReferencesDeclared (.reference r) f
  | list {items : List Value} {f element : Field} (hkind : f.kind = .list element)
      (hrule : f.IsImpartial) (h : ∀ v ∈ items, ReferencesDeclared v element) :
      ReferencesDeclared (.list items) f
  | dict {entries : List (String × Value)} {f element : Field} (hkind : f.kind = .dict element)
      (hrule : f.IsImpartial) (h : ∀ e ∈ entries, ReferencesDeclared e.2 element) :
      ReferencesDeclared (.dict entries) f
  | document {doc : Document} {f : Field} (hrule : f.IsImpartial)
      (h : ∀ e ∈ doc.values, ∀ g, doc.type.StoresAs e.1 g → ReferencesDeclared e.2 g) :
      ReferencesDeclared (.document doc) f

/-- The references in a document stand where its type declares them. -/
def Document.ReferencesDeclared (d : Document) : Prop :=
  ∀ e ∈ d.values, ∀ f, d.type.StoresAs e.1 f → DocumentMapper.ReferencesDeclared e.2 f

/-- The documents that some references lead to have their ids as keys. -/
def KeptKeys (c : Catalog) (g : ObjectKey → Option Document) (references : List Reference) : Prop :=
  ∀ r ∈ references, ∀ key doc, c.objectKey? r = some key → g key = some doc →
    doc.keyJson.Yields r.id ∧ r.id.isNull = false

theorem keptKeys_append {rs rs' : List Reference} :
    KeptKeys c g (rs ++ rs') ↔ KeptKeys c g rs ∧ KeptKeys c g rs' :=
  List.forall_mem_append

/-! ### Assembling a document -/

/-- Encoders of the same attributes that agree for the fields as which a type stores them. -/
def EncodersAgree (t : DocumentType) : List (String × Encoder) → List (String × Encoder) → Prop :=
  List.Forall₂ fun e e' => e.1 = e'.1 ∧ ∀ f, t.StoresAs e.1 f → e.2 f = e'.2 f

namespace EncodersAgree

variable {encoders encoders' : List (String × Encoder)}

/-- What an attribute is encoded to, or something else where it has no value. -/
theorem encoderOf (h : EncodersAgree t encoders encoders') (hf : f ∈ t.fields)
    (missing : Drawing Json) :
    (match DocumentMapper.encoderOf encoders f.name with
      | some encode => encode f
      | none => missing) =
    match DocumentMapper.encoderOf encoders' f.name with
      | some encode => encode f
      | none => missing := by
  induction h with
  | nil => rfl
  | @cons e e' rest rest' hagree _ ih =>
    obtain ⟨name, encode⟩ := e
    obtain ⟨name', encode'⟩ := e'
    obtain ⟨rfl, hencode⟩ := hagree
    by_cases hname : name = f.name
    · subst hname
      simpa [DocumentMapper.encoderOf, Entries.get?] using hencode f (.declared hf)
    · simpa [DocumentMapper.encoderOf, Entries.get?, hname] using ih

theorem assembleFields (h : EncodersAgree t encoders encoders') {fields : List Field}
    (hfields : ∀ f ∈ fields, f ∈ t.fields) (key : Option String) (p : Patch) :
    DocumentMapper.assembleFields fields key encoders p =
      DocumentMapper.assembleFields fields key encoders' p := by
  induction fields generalizing p with
  | nil => rfl
  | cons f fs ih =>
    obtain ⟨hf, hfs⟩ := List.forall_mem_cons.mp hfields
    rw [assembleFields_cons, assembleFields_cons]
    simp only [ih hfs]
    exact congrArg (· >>= _) (h.encoderOf hf f.encodeDefault)

theorem addUndeclared (h : EncodersAgree t encoders encoders') (p : Patch) :
    DocumentMapper.addUndeclared t.fields encoders p =
      DocumentMapper.addUndeclared t.fields encoders' p := by
  induction h generalizing p with
  | nil => rfl
  | @cons e e' rest rest' hagree _ ih =>
    obtain ⟨name, encode⟩ := e
    obtain ⟨name', encode'⟩ := e'
    obtain ⟨rfl, hencode⟩ := hagree
    simp only [DocumentMapper.addUndeclared]
    split
    · exact ih p
    · rename_i hno
      have hundeclared : ∀ f ∈ t.fields, f.name ≠ name := by simpa using hno
      have hsame : encode (.any name) = encode' (.any name) := hencode _ (.undeclared hundeclared)
      rw [hsame]
      simp only [ih]

theorem assemble (h : EncodersAgree t encoders encoders') :
    t.assemble encoders = t.assemble encoders' := by
  obtain ⟨name, className, collection, fields, key, isDynamic, inheritance, superclass⟩ := t
  simp only [DocumentType.assemble, h.assembleFields fun _ hf => hf]
  exact bind_congr fun p => h.addUndeclared p

theorem keyFrom (h : EncodersAgree t encoders encoders') :
    t.keyFrom encoders = t.keyFrom encoders' := by
  unfold DocumentType.keyFrom
  cases hkey : t.primaryKeyField? with
  | none => rfl
  | some f =>
    obtain ⟨key, -, hfind⟩ := Option.bind_eq_some_iff.mp hkey
    exact h.encoderOf (List.mem_of_find?_eq_some hfind) (return .null)

end EncodersAgree

/-! ### Stored forms -/

/-- A document whose key is known is stored by it. -/
theorem Field.linkId_of_yields {key : Drawing Json} {id : Json} (h : key.Yields id)
    (hid : id.isNull = false) : f.linkId key = pure id := by
  rw [h.eq_pure, linkId, pure_bind, hid]
  rfl

/-- A linked document is stored where a reference is declared as the reference to it. -/
theorem Value.encode_linked {doc : Document} {r : Reference} {typeName : String}
    (hkind : f.kind = .reference typeName) (hcheck : f.check (.linked doc) = f.check (.reference r))
    (hkey : doc.keyJson.Yields r.id) (hid : r.id.isNull = false) :
    (Value.linked doc).encode f = (Value.reference r).encode f := by
  simp only [Value.encode, Field.encodeLeaf, hkind, hcheck, Field.linkId_of_yields hkey hid]
  rfl

mutual

/-- **A value is stored alike before and after documents are put in place of its references.** -/
theorem Value.encode_linkedBy : ∀ (v : Value) {f : Field}, ReferencesDeclared v f →
    KeptKeys c g v.references → (v.linkedBy c g).encode f = v.encode f
  | .reference r, f, h, hkeys => by
    cases h with
    | none h => cases h
    | reference hkind hrule =>
      have hcheck := hrule.check (c := c) (g := g) (.reference r)
      simp only [Value.linkedBy] at hcheck ⊢
      cases hdoc : (c.objectKey? r).bind g with
      | none => rfl
      | some doc =>
        obtain ⟨key, hkey, hfound⟩ := Option.bind_eq_some_iff.mp hdoc
        obtain ⟨hyields, hid⟩ := hkeys r List.mem_cons_self key doc hkey hfound
        rw [hdoc] at hcheck
        exact Value.encode_linked hkind hcheck hyields hid
  | .list items, f, h, hkeys => by
    cases h with
    | none h => rw [Value.linkedBy_of_references_nil h]
    | list hkind hrule h =>
      have hcheck := hrule.check (c := c) (g := g) (.list items)
      have hitems := encodeItems_linkedItems items h hkeys
      simp only [Value.linkedBy] at hcheck ⊢
      simp only [Value.encode, hcheck, hkind, hitems]
  | .dict entries, f, h, hkeys => by
    cases h with
    | none h => rw [Value.linkedBy_of_references_nil h]
    | dict hkind hrule h =>
      have hcheck := hrule.check (c := c) (g := g) (.dict entries)
      have hentries := encodeEntries_linkedEntries entries f h hkeys
      simp only [Value.linkedBy] at hcheck ⊢
      simp only [Value.encode, hcheck, hkind, hentries]
  | .document doc, f, h, hkeys => by
    cases h with
    | none h => rw [Value.linkedBy_of_references_nil h]
    | document hrule h =>
      have hcheck := hrule.check (c := c) (g := g) (.document doc)
      obtain ⟨hpatch, hkey⟩ := Document.stored_linkedBy doc h hkeys
      have htype : (doc.linkedBy c g).type = doc.type := by cases doc; rfl
      simp only [Value.linkedBy] at hcheck ⊢
      simp only [Value.encode, hcheck, hpatch, hkey, htype]
      -- A field that refuses a document names the kind of the value, not the document.
      rfl
  | .null, _, _, _ => rfl
  | .bool _, _, _, _ => rfl
  | .int _, _, _, _ => rfl
  | .float _, _, _, _ => rfl
  | .string _, _, _, _ => rfl
  | .datetime _, _, _, _ => rfl
  | .linked _, _, _, _ => rfl
termination_by structural v => v

/-- The same for several values. -/
theorem encodeItems_linkedItems : ∀ (vs : List Value) {element : Field},
    (∀ v ∈ vs, ReferencesDeclared v element) → KeptKeys c g (referencesOfItems vs) →
    encodeItems (linkedItems c g vs) element = encodeItems vs element
  | [], _, _, _ => rfl
  | v :: vs, element, h, hkeys => by
    obtain ⟨hv, hvs⟩ := List.forall_mem_cons.mp h
    obtain ⟨hkeysV, hkeysVs⟩ := keptKeys_append.mp hkeys
    simp only [linkedItems, encodeItems, Value.encode_linkedBy v hv hkeysV,
      encodeItems_linkedItems vs hvs hkeysVs]
termination_by structural vs => vs

/-- The same for several entries. -/
theorem encodeEntries_linkedEntries : ∀ (es : List (String × Value)) (f : Field) {element : Field},
    (∀ e ∈ es, ReferencesDeclared e.2 element) → KeptKeys c g (referencesOfEntries es) →
    encodeEntries (linkedEntries c g es) f element = encodeEntries es f element
  | [], _, _, _, _ => rfl
  | (k, v) :: rest, f, element, h, hkeys => by
    obtain ⟨hv, hrest⟩ := List.forall_mem_cons.mp h
    obtain ⟨hkeysV, hkeysRest⟩ := keptKeys_append.mp hkeys
    simp only [linkedEntries, encodeEntries, Value.encode_linkedBy v hv hkeysV,
      encodeEntries_linkedEntries rest f hrest hkeysRest]
termination_by structural es => es

/-- The attributes of a document are encoded alike as what its type stores. -/
theorem encodersAgree_linkedEntries : ∀ (es : List (String × Value)) {t : DocumentType},
    (∀ e ∈ es, ∀ f, t.StoresAs e.1 f → ReferencesDeclared e.2 f) →
    KeptKeys c g (referencesOfEntries es) →
    EncodersAgree t (encodersOf (linkedEntries c g es)) (encodersOf es)
  | [], _, _, _ => .nil
  | (k, v) :: rest, t, h, hkeys => by
    obtain ⟨hv, hrest⟩ := List.forall_mem_cons.mp h
    obtain ⟨hkeysV, hkeysRest⟩ := keptKeys_append.mp hkeys
    exact .cons ⟨rfl, fun f hf => Value.encode_linkedBy v (hv f hf) hkeysV⟩
      (encodersAgree_linkedEntries rest hrest hkeysRest)
termination_by structural es => es

/-- **A document is stored alike, and so is its key.** -/
theorem Document.stored_linkedBy : ∀ (d : Document), d.ReferencesDeclared →
    KeptKeys c g d.references →
    (d.linkedBy c g).fullPatch = d.fullPatch ∧ (d.linkedBy c g).keyJson = d.keyJson
  | ⟨type, values, _, _⟩, h, hkeys => by
    have hencoders := encodersAgree_linkedEntries values h hkeys
    exact ⟨hencoders.assemble, hencoders.keyFrom⟩
termination_by structural d => d

end

/-- What an attribute has is linked by itself. -/
theorem get?_linkedEntries (es : List (String × Value)) (name : String) :
    Entries.get? (linkedEntries c g es) name =
      (Entries.get? es name).map (Value.linkedBy c g) := by
  induction es with
  | nil => rfl
  | cons e rest ih =>
    obtain ⟨k, v⟩ := e
    by_cases hk : k = name
    · simp [linkedEntries, Entries.get?, hk]
    · simpa [linkedEntries, Entries.get?, hk] using ih

/-- The references of an attribute are in the document. -/
theorem references_subset {es : List (String × Value)} {name : String} {v : Value}
    (h : Entries.get? es name = some v) : v.references ⊆ referencesOfEntries es := by
  induction es with
  | nil => cases h
  | cons e rest ih =>
    obtain ⟨k, w⟩ := e
    by_cases hk : k = name
    · obtain rfl : w = v := by simpa [Entries.get?, hk] using h
      exact List.subset_append_left _ _
    · have hrest : Entries.get? rest name = some v := by simpa [Entries.get?, hk] using h
      exact List.subset_append_of_subset_right _ (ih hrest)

/-- The key of a document is stored alike if its own references stand where they are declared. -/
theorem Document.keyJson_linkedBy {d : Document}
    (hdeclared : ∀ f v, d.type.primaryKeyField? = some f → Entries.get? d.values f.name = some v →
      DocumentMapper.ReferencesDeclared v f) (hkeys : KeptKeys c g d.references) :
    (d.linkedBy c g).keyJson = d.keyJson := by
  obtain ⟨type, values, dirty, raw⟩ := d
  cases hfield : type.primaryKeyField? with
  | none => simp only [Document.linkedBy, Document.keyJson, DocumentType.keyFrom, hfield]
  | some f =>
    have hkept : ∀ v, Entries.get? values f.name = some v → KeptKeys c g v.references :=
      fun v hv r hr => hkeys r (references_subset hv hr)
    have hafter : (Document.linkedBy c g ⟨type, values, dirty, raw⟩).type.primaryKeyField? =
        some f := hfield
    rw [keyJson_eq hafter, keyJson_eq hfield]
    simp only [Document.linkedBy, get?_linkedEntries]
    cases hv : Entries.get? values f.name with
    | none => rfl
    | some v => exact Value.encode_linkedBy v (hdeclared f v hfield hv) (hkept v hv)

/-! ### Changed paths -/

mutual

/-- The changed paths in a value are those that were in it. -/
theorem Value.changesAt_linkedBy (own : DirtyPaths) (front : String) :
    ∀ (rel : String) (v : Value),
      (v.linkedBy c g).changesAt own front rel = v.changesAt own front rel
  | _, .reference r => by
    simp only [Value.linkedBy]
    split <;> rfl
  | rel, .list items => by
    simp only [Value.linkedBy, Value.changesAt, changesInItems_linkedItems own front rel 0 items]
  | rel, .dict entries => by
    simp only [Value.linkedBy, Value.changesAt,
      changesInEntries_linkedEntries own front rel entries]
  | rel, .document doc => by
    simp only [Value.linkedBy, Value.changesAt, Document.changesFrom_linkedBy _ doc]
  | _, .null => rfl
  | _, .bool _ => rfl
  | _, .int _ => rfl
  | _, .float _ => rfl
  | _, .string _ => rfl
  | _, .datetime _ => rfl
  | _, .linked _ => rfl
termination_by structural _ v => v

theorem changesInItems_linkedItems (own : DirtyPaths) (front rel : String) :
    ∀ (i : Nat) (vs : List Value),
      changesInItems own front rel i (linkedItems c g vs) = changesInItems own front rel i vs
  | _, [] => rfl
  | i, v :: vs => by
    simp only [linkedItems, changesInItems, Value.changesAt_linkedBy own front _ v,
      changesInItems_linkedItems own front rel (i + 1) vs]
termination_by structural _ vs => vs

theorem changesInEntries_linkedEntries (own : DirtyPaths) (front rel : String) :
    ∀ es : List (String × Value),
      changesInEntries own front rel (linkedEntries c g es) = changesInEntries own front rel es
  | [] => rfl
  | (k, v) :: rest => by
    simp only [linkedEntries, changesInEntries, Value.changesAt_linkedBy own front _ v,
      changesInEntries_linkedEntries own front rel rest]
termination_by structural es => es

theorem changesInAttributes_linkedEntries (t : DocumentType) (own : DirtyPaths) (front : String) :
    ∀ es : List (String × Value),
      changesInAttributes t own front (linkedEntries c g es) = changesInAttributes t own front es
  | [] => rfl
  | (k, v) :: rest => by
    simp only [linkedEntries, changesInAttributes, Value.changesAt_linkedBy own front k v,
      changesInAttributes_linkedEntries t own front rest]
termination_by structural es => es

theorem Document.changesFrom_linkedBy (front : String) : ∀ d : Document,
    (d.linkedBy c g).changesFrom front = d.changesFrom front
  | ⟨type, values, dirty, _⟩ =>
    congrArg (dirty.paths.map (front ++ ·) ++ ·)
      (changesInAttributes_linkedEntries type dirty front values)
termination_by structural d => d

end

/-- **A document has the changed paths that it had.** -/
theorem Document.changedPaths_linkedBy (d : Document) :
    (d.linkedBy c g).changedPaths = d.changedPaths := by
  rw [changedPaths, changedPaths, d.changesFrom_linkedBy]

/-! ### Sizes -/

section

variable {r : Reference} {key : ObjectKey} {doc : Document}

mutual

/-- A document in place of a reference is smaller than the value with it. -/
theorem Value.sizeOf_lt_linkedBy (hkey : c.objectKey? r = some key) (hdoc : g key = some doc) :
    ∀ v : Value, r ∈ v.references → sizeOf doc < sizeOf (v.linkedBy c g)
  | .reference r', h => by
    obtain rfl := List.mem_singleton.mp h
    simp [Value.linkedBy, hkey, hdoc]
  | .list items, h => by
    have hitems := sizeOf_lt_linkedItems hkey hdoc items h
    simp only [Value.linkedBy, Value.list.sizeOf_spec]
    omega
  | .dict entries, h => by
    have hentries := sizeOf_lt_linkedEntries hkey hdoc entries h
    simp only [Value.linkedBy, Value.dict.sizeOf_spec]
    omega
  | .document d, h => by
    have hd := Document.sizeOf_lt_linkedBy hkey hdoc d h
    simp only [Value.linkedBy, Value.document.sizeOf_spec]
    omega
  | .null, h => nomatch h
  | .bool _, h => nomatch h
  | .int _, h => nomatch h
  | .float _, h => nomatch h
  | .string _, h => nomatch h
  | .datetime _, h => nomatch h
  | .linked _, h => nomatch h
termination_by structural v => v

theorem sizeOf_lt_linkedItems (hkey : c.objectKey? r = some key) (hdoc : g key = some doc) :
    ∀ vs : List Value, r ∈ referencesOfItems vs → sizeOf doc < sizeOf (linkedItems c g vs)
  | [], h => nomatch h
  | v :: vs, h => by
    simp only [linkedItems, List.cons.sizeOf_spec]
    rcases List.mem_append.mp h with h | h
    · have hv := Value.sizeOf_lt_linkedBy hkey hdoc v h
      omega
    · have hvs := sizeOf_lt_linkedItems hkey hdoc vs h
      omega
termination_by structural vs => vs

theorem sizeOf_lt_linkedEntries (hkey : c.objectKey? r = some key) (hdoc : g key = some doc) :
    ∀ es : List (String × Value), r ∈ referencesOfEntries es →
      sizeOf doc < sizeOf (linkedEntries c g es)
  | [], h => nomatch h
  | (k, v) :: rest, h => by
    simp only [linkedEntries, List.cons.sizeOf_spec, Prod.mk.sizeOf_spec]
    rcases List.mem_append.mp h with h | h
    · have hv := Value.sizeOf_lt_linkedBy hkey hdoc v h
      omega
    · have hrest := sizeOf_lt_linkedEntries hkey hdoc rest h
      omega
termination_by structural es => es

theorem Document.sizeOf_lt_linkedBy (hkey : c.objectKey? r = some key) (hdoc : g key = some doc) :
    ∀ d : Document, r ∈ d.references → sizeOf doc < sizeOf (d.linkedBy c g)
  | ⟨type, values, dirty, raw⟩, h => by
    have hvalues := sizeOf_lt_linkedEntries hkey hdoc values h
    simp only [Document.linkedBy, Document.mk.sizeOf_spec]
    omega
termination_by structural d => d

end

end

end DocumentMapper
