import DocumentMapper.Proofs.SeparateStorage
import DocumentMapper.Proofs.StoredForms
import DocumentMapper.Proofs.Tracking

/-!
# Values that differ in their marks

Two values that are the same without their marks are stored alike, as far as both can be stored.
Whether they can is for the rules to say, and a rule may look at marks: it can refuse a document in
which nothing has changed. A rule is pure if it does not. Values under pure rules are stored alike in
any case; only the text of an error can tell, because a rule may show the value that it refuses.

Both are one statement (`Drawing.AlikeIf`), which is followed through a value once. The encoders of
the attributes of a document are compared one by one (`EncodersAlike`), and then the type puts
together what they write in the same way.

## Main results

* `Value.encode_alikeIf`, `Document.fullPatch_alikeIf`, `Document.keyJson_alikeIf`: values that
  differ in their marks are stored alike;
* `Place.Resembles.alike`: what lives at a place is stored alike, as far as it can be stored.
-/

namespace DocumentMapper

open Drawing

/-! ### Rules that do not see marks -/

/-- A rule is pure if it accepts equal values alike. Documents are equal whatever is marked in
them. -/
def Validator.IsPure (rule : Validator) : Prop :=
  ∀ v : Value, rule.objection? v.unmarked = none ↔ rule.objection? v = none

/-- A field asks its own rule, and those of its elements. -/
inductive Field.Asks : Field → Validator → Prop
  | own {f : Field} {rule : Validator} (h : f.validator = some rule) : Asks f rule
  | element {f element : Field} {rule : Validator} (h : f.kind.element? = some element)
      (hasks : Asks element rule) : Asks f rule

/-- A field has pure rules if all that it asks are. -/
def Field.HasPureRules (f : Field) : Prop :=
  ∀ rule, f.Asks rule → rule.IsPure

theorem Field.HasPureRules.element {f element : Field} (h : f.HasPureRules)
    (helement : f.kind.element? = some element) : element.HasPureRules :=
  fun rule hasks => h rule (.element helement hasks)

theorem Field.hasPureRules_of_noElement {f : Field} (hkind : f.kind.element? = none)
    (hrule : ∀ rule, f.validator = some rule → rule.IsPure) : f.HasPureRules := by
  intro rule hasks
  cases hasks with
  | own h => exact hrule rule h
  | element h _ => rw [hkind] at h; cases h

theorem Field.hasPureRules_of_unchecked {f : Field} (hkind : f.kind.element? = none)
    (hnone : f.validator = none) : f.HasPureRules := by
  refine hasPureRules_of_noElement hkind fun rule hrule => ?_
  rw [hnone] at hrule
  cases hrule

theorem Field.hasPureRules_any (name : String) : (Field.any name).HasPureRules :=
  hasPureRules_of_unchecked rfl rfl

/-- The documents embedded in a value, at any depth. -/
inductive Value.Embeds : Value → Document → Prop
  | document (doc : Document) : Embeds (.document doc) doc
  | item {items : List Value} {v : Value} {doc : Document} (hv : v ∈ items) (h : v.Embeds doc) :
      Embeds (.list items) doc
  | entry {entries : List (String × Value)} {e : String × Value} {doc : Document}
      (he : e ∈ entries) (h : e.2.Embeds doc) : Embeds (.dict entries) doc
  | held {outer doc : Document} {e : String × Value} (he : e ∈ outer.values)
      (h : e.2.Embeds doc) : Embeds (.document outer) doc

/-- Values without parts embed no document. -/
theorem Value.Embeds.not_leaf {v : Value} {inner : Document} (h : v.Embeds inner) : ¬ v.IsLeaf := by
  cases h <;> exact id

/-- A value has pure rules if the fields of all documents have that it embeds. -/
def Value.HasPureRules (v : Value) : Prop :=
  ∀ doc, v.Embeds doc → ∀ f ∈ doc.type.fields, f.HasPureRules

/-- A document has pure rules if its fields have, and those of all documents that it embeds. -/
def Document.HasPureRules (doc : Document) : Prop :=
  (Value.document doc).HasPureRules

theorem Document.HasPureRules.fields {doc : Document} (h : doc.HasPureRules) :
    ∀ f ∈ doc.type.fields, f.HasPureRules :=
  h doc (.document doc)

theorem Document.HasPureRules.values {doc : Document} (h : doc.HasPureRules) :
    ∀ e ∈ doc.values, e.2.HasPureRules :=
  fun _ he inner hinner => h inner (.held he hinner)

theorem Document.hasPureRules_of_leaves {doc : Document}
    (hleaves : ∀ e ∈ doc.values, e.2.IsLeaf) (hfields : ∀ f ∈ doc.type.fields, f.HasPureRules) :
    doc.HasPureRules := by
  intro inner hinner
  cases hinner with
  | document => exact hfields
  | held he h => exact absurd (hleaves _ he) h.not_leaf

/-! ### Computations that succeed alike -/

namespace Drawing

variable {α β γ : Type}

/-- Two computations succeed alike, if a condition holds or both succeed at all. -/
def AlikeIf (P : Prop) (x y : Drawing α) : Prop :=
  P ∨ ((∃ a, x.Gives a) ∧ ∃ b, y.Gives b) → x.Alike y

namespace AlikeIf

variable {P : Prop}

theorem refl (x : Drawing α) : x.AlikeIf P x :=
  fun _ => .refl x

theorem throws (cause cause' : Error) : (throw cause : Drawing α).AlikeIf P (throw cause') :=
  fun _ => .throws cause cause'

/-- Two computations one after the other, and what is made of their outcomes. -/
theorem seq {x y : Drawing α} {x' y' : Drawing β} (hx : x.AlikeIf P y) (hx' : x'.AlikeIf P y')
    (f : α → β → Drawing γ) :
    (x >>= fun a => x' >>= f a).AlikeIf P (y >>= fun a => y' >>= f a) := by
  have hparts : ∀ {u : Drawing α} {u' : Drawing β}, (∃ c, (u >>= fun a => u' >>= f a).Gives c) →
      (∃ a, u.Gives a) ∧ ∃ b, u'.Gives b := by
    rintro u u' ⟨c, hc⟩
    obtain ⟨a, ha, hrest⟩ := hc.of_bind
    obtain ⟨b, hb, -⟩ := hrest.of_bind
    exact ⟨⟨a, ha⟩, b, hb⟩
  intro h
  have halike : x.Alike y := hx (h.imp_right fun hboth => ⟨(hparts hboth.1).1, (hparts hboth.2).1⟩)
  have halike' : x'.Alike y' :=
    hx' (h.imp_right fun hboth => ⟨(hparts hboth.1).2, (hparts hboth.2).2⟩)
  exact .bind halike fun a => .bind halike' fun b => .refl _

theorem bind {x y : Drawing α} (hx : x.AlikeIf P y) (f : α → Drawing β) :
    (x >>= f).AlikeIf P (y >>= f) := by
  simpa using hx.seq (.refl (pure ())) fun a _ => f a

theorem andThen {x y : Drawing α} {x' y' : Drawing β} (hx : x.AlikeIf P y)
    (hx' : x'.AlikeIf P y') : (x >>= fun _ => x').AlikeIf P (y >>= fun _ => y') := by
  simpa using hx.seq hx' fun _ b => pure b

end AlikeIf

end Drawing

/-! ### What is looked at before a value is encoded -/

@[simp] theorem length_unmarkedItems (items : List Value) :
    (unmarkedItems items).length = items.length := by
  induction items with
  | nil => rfl
  | cons v vs ih => simp [unmarkedItems, ih]

theorem getElem?_unmarkedItems (items : List Value) (i : Nat) :
    (unmarkedItems items)[i]? = items[i]?.map Value.unmarked := by
  induction items generalizing i with
  | nil => rfl
  | cons v vs ih =>
    cases i with
    | zero => rfl
    | succ i => exact ih i

@[simp] theorem map_fst_unmarkedEntries (values : List (String × Value)) :
    (unmarkedEntries values).map Prod.fst = values.map Prod.fst := by
  induction values with
  | nil => rfl
  | cons e rest ih =>
    obtain ⟨k, v⟩ := e
    simp [unmarkedEntries, ih]

@[simp] theorem contains_unmarkedEntries (entries : List (String × Value)) (key : String) :
    Entries.contains (unmarkedEntries entries) key = Entries.contains entries key := by
  simp [Entries.contains]

@[simp] theorem Value.isNull_unmarked (v : Value) : v.unmarked.isNull = v.isNull := by
  cases v <;> rfl

theorem Value.isNull_congr {v v' : Value} (h : v.unmarked = v'.unmarked) : v.isNull = v'.isNull := by
  rw [← isNull_unmarked, h, isNull_unmarked]

/-- Numbers have no marks. -/
@[simp] theorem Value.asDouble?_unmarked (v : Value) : v.unmarked.asDouble? = v.asDouble? := by
  cases v <;> rfl

@[simp] theorem all_asDouble?_unmarkedItems (items : List Value) :
    ((unmarkedItems items).all fun v => v.asDouble?.isSome) =
      items.all fun v => v.asDouble?.isSome := by
  induction items with
  | nil => rfl
  | cons v vs ih => simp [unmarkedItems, ih]

namespace Value

variable {v v' : Value}

theorem unmarked_eq_list {items : List Value} (h : (list items).unmarked = v.unmarked) :
    ∃ items', v = list items' ∧ unmarkedItems items = unmarkedItems items' := by
  cases v <;> simp only [unmarked, reduceCtorEq, list.injEq] at h
  exact ⟨_, rfl, h⟩

theorem unmarked_eq_dict {entries : List (String × Value)}
    (h : (dict entries).unmarked = v.unmarked) :
    ∃ entries', v = dict entries' ∧ unmarkedEntries entries = unmarkedEntries entries' := by
  cases v <;> simp only [unmarked, reduceCtorEq, dict.injEq] at h
  exact ⟨_, rfl, h⟩

theorem unmarked_eq_document {doc : Document} (h : (document doc).unmarked = v.unmarked) :
    ∃ doc', v = document doc' ∧ doc.unmarked = doc'.unmarked := by
  cases v <;> simp only [unmarked, reduceCtorEq, document.injEq] at h
  exact ⟨_, rfl, h⟩

/-- Whether a value has parts that can change: it is a list, a dict or an embedded document. -/
def hasParts : Value → Bool
  | list _ | dict _ | document _ => true
  | _ => false

/-- A value without parts has no marks. -/
theorem eq_of_unmarked_eq (hv : v.hasParts = false) (h : v.unmarked = v'.unmarked) : v' = v := by
  cases v with
  | list | dict | document => cases hv
  | _ => cases v' <;> simp_all [unmarked]

end Value

/-- Two documents of one type that have the same values, up to marks. -/
structure Document.Resembles (doc doc' : Document) : Prop where
  type : doc.type = doc'.type
  values : unmarkedEntries doc.values = unmarkedEntries doc'.values

theorem Document.Resembles.of_unmarked_eq {doc doc' : Document}
    (h : doc.unmarked = doc'.unmarked) : doc.Resembles doc' := by
  have htype := congrArg Document.type h
  have hvalues := congrArg Document.values h
  simp only [unmarked_type, unmarked_values] at htype hvalues
  exact ⟨htype, hvalues⟩

/-- A saved document differs from what was saved in its marks. -/
theorem Document.resembles_persisted (doc : Document) (raw : Object) :
    doc.Resembles (doc.persisted raw) := by
  refine ⟨doc.unmarked_type.symm, ?_⟩
  rw [persisted, unmarked_values, unmarkedEntries_unmarkedEntries]

theorem Document.Resembles.symm {doc doc' : Document} (h : doc.Resembles doc') :
    doc'.Resembles doc :=
  ⟨h.type.symm, h.values.symm⟩

/-- Entries that are the same without their marks have the same keys, and values that are the same
without their marks. -/
theorem unmarkedEntries_eq_cons {k : String} {v : Value} {rest entries : List (String × Value)}
    (h : unmarkedEntries ((k, v) :: rest) = unmarkedEntries entries) :
    ∃ v' rest', entries = (k, v') :: rest' ∧ v.unmarked = v'.unmarked ∧
      unmarkedEntries rest = unmarkedEntries rest' := by
  cases entries with
  | nil => cases h
  | cons e rest' =>
    obtain ⟨k', v'⟩ := e
    simp only [unmarkedEntries, List.cons.injEq, Prod.mk.injEq] at h
    obtain ⟨⟨rfl, hv⟩, hrest⟩ := h
    exact ⟨v', rest', rfl, hv, hrest⟩

theorem unmarkedItems_eq_nil {items : List Value} (h : unmarkedItems [] = unmarkedItems items) :
    items = [] := by
  cases items with
  | nil => rfl
  | cons => cases h

theorem unmarkedEntries_eq_nil {entries : List (String × Value)}
    (h : unmarkedEntries [] = unmarkedEntries entries) : entries = [] := by
  cases entries with
  | nil => rfl
  | cons => cases h

theorem unmarkedItems_eq_cons {v : Value} {vs items : List Value}
    (h : unmarkedItems (v :: vs) = unmarkedItems items) :
    ∃ v' vs', items = v' :: vs' ∧ v.unmarked = v'.unmarked ∧
      unmarkedItems vs = unmarkedItems vs' := by
  cases items with
  | nil => cases h
  | cons v' vs' =>
    simp only [unmarkedItems, List.cons.injEq] at h
    exact ⟨v', vs', rfl, h⟩

/-! ### Checks -/

namespace Validator

theorem isPure_nonNegative : nonNegative.IsPure := by
  intro v
  cases v <;> rfl

theorem isPure_nonEmpty : nonEmpty.IsPure := by
  intro v
  cases v with
  | list items => cases items <;> rfl
  | dict entries => cases entries <;> rfl
  | _ => rfl

theorem isPure_reject : reject.IsPure :=
  fun _ => iff_of_false nofun nofun

end Validator

section

variable {P : Prop} {f : Field} {v v' : Value}

/-- A field checks values that differ in their marks alike. -/
theorem Field.check_alikeIf (hpure : P → f.HasPureRules) (h : v.unmarked = v'.unmarked) :
    (f.check v).AlikeIf P (f.check v') := by
  intro hcondition
  have hsame : f.validator.bind (·.objection? v) = none ↔ f.validator.bind (·.objection? v') = none := by
    rcases hcondition with hP | ⟨⟨_, hv⟩, _, hv'⟩
    · cases hvalidator : f.validator with
      | none => rfl
      | some rule =>
        have hrule := hpure hP rule (.own hvalidator)
        rw [Option.bind_some, Option.bind_some, ← hrule v, h, hrule v']
    · exact iff_of_true (gives_check hv) (gives_check hv')
  unfold check
  cases hv : f.validator.bind (·.objection? v) with
  | none =>
    rw [hsame.mp hv]
    exact .refl _
  | some cause =>
    cases hv' : f.validator.bind (·.objection? v') with
    | none =>
      rw [hsame.mpr hv'] at hv
      cases hv
    | some cause' => exact .throws _ _

/-- A field refuses and checks values alike that differ in their marks. -/
theorem Field.checkedAlike_unmarked (hpure : P → f.HasPureRules) (h : v.unmarked = v'.unmarked) :
    CheckedAlike (Drawing.AlikeIf P) v v' f f where
  kind := rfl
  refused _ _ := .throws _ _
  checked hx := (Field.check_alikeIf hpure h).andThen hx

end

/-! ### Putting a document together -/

/-- Encoders of the same attributes that encode alike for fields with pure rules. -/
inductive EncodersAlike (P : Prop) : List (String × Encoder) → List (String × Encoder) → Prop
  | nil : EncodersAlike P [] []
  | cons (name : String) {encode encode' : Encoder} {rest rest' : List (String × Encoder)}
      (h : ∀ f : Field, (P → f.HasPureRules) → (encode f).AlikeIf P (encode' f))
      (hrest : EncodersAlike P rest rest') :
      EncodersAlike P ((name, encode) :: rest) ((name, encode') :: rest')

namespace EncodersAlike

variable {P : Prop} {encoders encoders' : List (String × Encoder)}

/-- What an attribute is encoded to, or something else where it has no value. -/
theorem encoderOf (h : EncodersAlike P encoders encoders') (name : String) {f : Field}
    (hf : P → f.HasPureRules) (missing : Drawing Json) :
    (match DocumentMapper.encoderOf encoders name with
      | some encode => encode f
      | none => missing).AlikeIf P
    (match DocumentMapper.encoderOf encoders' name with
      | some encode => encode f
      | none => missing) := by
  induction h with
  | nil => exact .refl _
  | cons other hencode _ ih =>
    by_cases hname : other = name
    · simpa [DocumentMapper.encoderOf, Entries.get?, hname] using hencode f hf
    · simpa [DocumentMapper.encoderOf, Entries.get?, hname] using ih

theorem writeFields (h : EncodersAlike P encoders encoders') {fields : List Field}
    (hfields : P → ∀ f ∈ fields, f.HasPureRules) (key : Option String) :
    (DocumentMapper.writeFields key encoders fields).AlikeIf P
      (DocumentMapper.writeFields key encoders' fields) := by
  induction fields with
  | nil => exact .refl _
  | cons f fs ih =>
    rw [writeFields_cons, writeFields_cons]
    refine (h.encoderOf f.name (fun hP => hfields hP f List.mem_cons_self) _).seq
      (ih fun hP g hg => hfields hP g (List.mem_cons_of_mem f hg)) _

theorem writeUndeclared (h : EncodersAlike P encoders encoders') (fields : List Field) :
    (DocumentMapper.writeUndeclared fields encoders).AlikeIf P
      (DocumentMapper.writeUndeclared fields encoders') := by
  induction h with
  | nil => exact .refl _
  | cons name hencode _ ih =>
    simp only [DocumentMapper.writeUndeclared]
    split
    · exact ih
    · exact (hencode _ fun _ => Field.hasPureRules_any name).seq ih _

theorem keyFrom (h : EncodersAlike P encoders encoders') {t : DocumentType}
    (hfields : P → ∀ f ∈ t.fields, f.HasPureRules) :
    (t.keyFrom encoders).AlikeIf P (t.keyFrom encoders') := by
  unfold DocumentType.keyFrom
  cases hkey : t.primaryKeyField? with
  | none => exact .refl _
  | some f =>
    obtain ⟨key, -, hfield⟩ := Option.bind_eq_some_iff.mp hkey
    exact h.encoderOf f.name (fun hP => hfields hP f (List.mem_of_find?_eq_some hfield)) (pure .null)

end EncodersAlike

/-! ### Values with parts -/

/-- A whole document is stored alike if its patch is drawn alike. -/
theorem Document.whole_alikeIf {P : Prop} {doc doc' : Document}
    (h : doc.fullPatch.AlikeIf P doc'.fullPatch) :
    (do return .object (← doc.fullPatch).sets : Drawing Json).AlikeIf P
      (do return .object (← doc'.fullPatch).sets) :=
  h.bind _

/-- A field refers alike to documents whose keys are drawn alike. -/
theorem Field.linkId_alikeIf {P : Prop} (f : Field) {key key' : Drawing Json}
    (h : key.AlikeIf P key') : (f.linkId key).AlikeIf P (f.linkId key') :=
  h.bind _

theorem Field.linkEnvelope_alikeIf {P : Prop} (f : Field) (t : DocumentType)
    {key key' : Drawing Json} (h : key.AlikeIf P key') :
    (f.linkEnvelope t key).AlikeIf P (f.linkEnvelope t key') := by
  unfold linkEnvelope linkParts
  refine .bind ?_ _
  split
  · exact (f.linkId_alikeIf h).bind _
  · exact .refl _

mutual

/-- **Values that differ in their marks are stored alike on their own.** -/
theorem Value.plain_alikeIf {P : Prop} : ∀ (v v' : Value), (P → v.HasPureRules) →
    v.unmarked = v'.unmarked → v.plain.AlikeIf P v'.plain
  | .list items, v', hpure, h => by
    obtain ⟨items', rfl, hitems⟩ := Value.unmarked_eq_list h
    exact (plainItems_alikeIf items items' (fun hP v hv doc hdoc => hpure hP doc (.item hv hdoc))
      hitems).bind _
  | .dict entries, v', hpure, h => by
    obtain ⟨entries', rfl, hentries⟩ := Value.unmarked_eq_dict h
    exact (plainEntries_alikeIf entries entries'
      (fun hP e he doc hdoc => hpure hP doc (.entry he hdoc)) hentries).bind _
  | .document doc, v', hpure, h => by
    obtain ⟨doc', rfl, hdoc⟩ := Value.unmarked_eq_document h
    exact Document.whole_alikeIf (Document.fullPatch_alikeIf doc doc' hpure (.of_unmarked_eq hdoc))
  | .null, v', _, h | .bool _, v', _, h | .int _, v', _, h | .float _, v', _, h
  | .string _, v', _, h | .datetime _, v', _, h | .reference _, v', _, h | .linked _, v', _, h => by
    rw [Value.eq_of_unmarked_eq rfl h]
    exact .refl _
termination_by structural v => v

theorem plainItems_alikeIf {P : Prop} : ∀ (vs vs' : List Value), (P → ∀ v ∈ vs, v.HasPureRules) →
    unmarkedItems vs = unmarkedItems vs' → (plainItems vs).AlikeIf P (plainItems vs')
  | [], vs', _, h => by
    obtain rfl := unmarkedItems_eq_nil h
    exact .refl _
  | v :: vs, vs', hpure, h => by
    obtain ⟨w, ws, rfl, hv, hvs⟩ := unmarkedItems_eq_cons h
    have hfirst := Value.plain_alikeIf v w (fun hP => hpure hP v List.mem_cons_self) hv
    exact hfirst.seq (plainItems_alikeIf vs ws
      (fun hP u hu => hpure hP u (List.mem_cons_of_mem v hu)) hvs) _
termination_by structural vs => vs

theorem plainEntries_alikeIf {P : Prop} : ∀ (es es' : List (String × Value)),
    (P → ∀ e ∈ es, e.2.HasPureRules) → unmarkedEntries es = unmarkedEntries es' →
    (plainEntries es).AlikeIf P (plainEntries es')
  | [], es', _, h => by
    obtain rfl := unmarkedEntries_eq_nil h
    exact .refl _
  | (k, v) :: rest, es', hpure, h => by
    obtain ⟨w, rest', rfl, hv, hrest⟩ := unmarkedEntries_eq_cons h
    have hfirst := Value.plain_alikeIf v w (fun hP => hpure hP (k, v) List.mem_cons_self) hv
    exact hfirst.seq (plainEntries_alikeIf rest rest'
      (fun hP e he => hpure hP e (List.mem_cons_of_mem (k, v) he)) hrest) _
termination_by structural es => es

/-- **Values that differ in their marks are stored alike for a field.** -/
theorem Value.encode_alikeIf {P : Prop} : ∀ (v v' : Value) (f : Field), (P → v.HasPureRules) →
    (P → f.HasPureRules) → v.unmarked = v'.unmarked → (v.encode f).AlikeIf P (v'.encode f)
  | .list items, v', f, hpure, hf, h => by
    obtain ⟨items', rfl, hitems⟩ := Value.unmarked_eq_list h
    have hpureItems : P → ∀ v ∈ items, v.HasPureRules :=
      fun hP v hv doc hdoc => hpure hP doc (.item hv hdoc)
    have hplain := plainItems_alikeIf items items' hpureItems hitems
    refine (Field.checkedAlike_unmarked hf h).list ?_ ?_ (hplain.bind _) (fun _ => hplain.bind _)
      fun element hkind => ?_
    · rw [← length_unmarkedItems, ← hitems, length_unmarkedItems]
    · rw [← all_asDouble?_unmarkedItems, ← hitems, all_asDouble?_unmarkedItems]
    · have helement : f.kind.element? = some element := by rw [hkind]; rfl
      exact (encodeItems_alikeIf items items' element hpureItems
        (fun hP => (hf hP).element helement) hitems).bind _
  | .dict entries, v', f, hpure, hf, h => by
    obtain ⟨entries', rfl, hentries⟩ := Value.unmarked_eq_dict h
    have hpureEntries : P → ∀ e ∈ entries, e.2.HasPureRules :=
      fun hP e he doc hdoc => hpure hP doc (.entry he hdoc)
    refine (Field.checkedAlike_unmarked hf h).dict (fun key => ?_)
      ((plainEntries_alikeIf entries entries' hpureEntries hentries).bind _) fun element hkind => ?_
    · rw [← contains_unmarkedEntries, ← hentries, contains_unmarkedEntries]
    · have helement : f.kind.element? = some element := by rw [hkind]; rfl
      exact (encodeEntries_alikeIf entries entries' f element hpureEntries
        (fun hP => (hf hP).element helement) hentries).bind _
  | .document doc, v', f, hpure, hf, h => by
    obtain ⟨doc', rfl, hdoc⟩ := Value.unmarked_eq_document h
    have hresembles := Document.Resembles.of_unmarked_eq hdoc
    have hkey := Document.keyJson_alikeIf doc doc' hpure hresembles
    exact (Field.checkedAlike_unmarked hf h).document hresembles.type.symm
      (Document.whole_alikeIf (Document.fullPatch_alikeIf doc doc' hpure hresembles))
      (f.linkId_alikeIf hkey) (f.linkEnvelope_alikeIf _ hkey)
  | .null, v', _, _, _, h | .bool _, v', _, _, _, h | .int _, v', _, _, _, h
  | .float _, v', _, _, _, h | .string _, v', _, _, _, h | .datetime _, v', _, _, _, h
  | .reference _, v', _, _, _, h | .linked _, v', _, _, _, h => by
    rw [Value.eq_of_unmarked_eq rfl h]
    exact .refl _
termination_by structural v => v

theorem encodeItems_alikeIf {P : Prop} : ∀ (vs vs' : List Value) (element : Field),
    (P → ∀ v ∈ vs, v.HasPureRules) → (P → element.HasPureRules) →
    unmarkedItems vs = unmarkedItems vs' →
    (encodeItems vs element).AlikeIf P (encodeItems vs' element)
  | [], vs', _, _, _, h => by
    obtain rfl := unmarkedItems_eq_nil h
    exact .refl _
  | v :: vs, vs', element, hpure, helement, h => by
    obtain ⟨w, ws, rfl, hv, hvs⟩ := unmarkedItems_eq_cons h
    have hfirst := Value.encode_alikeIf v w element (fun hP => hpure hP v List.mem_cons_self)
      helement hv
    exact hfirst.seq (encodeItems_alikeIf vs ws element
      (fun hP u hu => hpure hP u (List.mem_cons_of_mem v hu)) helement hvs) _
termination_by structural vs => vs

theorem encodeEntries_alikeIf {P : Prop} : ∀ (es es' : List (String × Value)) (f element : Field),
    (P → ∀ e ∈ es, e.2.HasPureRules) → (P → element.HasPureRules) →
    unmarkedEntries es = unmarkedEntries es' →
    (encodeEntries es f element).AlikeIf P (encodeEntries es' f element)
  | [], es', _, _, _, _, h => by
    obtain rfl := unmarkedEntries_eq_nil h
    exact .refl _
  | (k, v) :: rest, es', f, element, hpure, helement, h => by
    obtain ⟨w, rest', rfl, hv, hrest⟩ := unmarkedEntries_eq_cons h
    have hfirst := Value.encode_alikeIf v w element (fun hP => hpure hP (k, v) List.mem_cons_self)
      helement hv
    have hothers := encodeEntries_alikeIf rest rest' f element
      (fun hP e he => hpure hP e (List.mem_cons_of_mem (k, v) he)) helement hrest
    simp only [encodeEntries]
    split
    · exact .refl _
    · exact hfirst.seq hothers _
termination_by structural es => es

/-- The attributes of documents are encoded alike. -/
theorem encodersAlike_unmarkedEntries {P : Prop} : ∀ (es es' : List (String × Value)),
    (P → ∀ e ∈ es, e.2.HasPureRules) → unmarkedEntries es = unmarkedEntries es' →
    EncodersAlike P (encodersOf es) (encodersOf es')
  | [], es', _, h => by
    obtain rfl := unmarkedEntries_eq_nil h
    exact .nil
  | (name, v) :: rest, es', hpure, h => by
    obtain ⟨w, rest', rfl, hv, hrest⟩ := unmarkedEntries_eq_cons h
    refine .cons name (fun f hf => ?_) (encodersAlike_unmarkedEntries rest rest'
      (fun hP e he => hpure hP e (List.mem_cons_of_mem (name, v) he)) hrest)
    exact Value.encode_alikeIf v w f (fun hP => hpure hP (name, v) List.mem_cons_self) hf hv
termination_by structural es => es

/-- **Documents that differ in their marks are stored alike.** -/
theorem Document.fullPatch_alikeIf {P : Prop} : ∀ (doc doc' : Document), (P → doc.HasPureRules) →
    doc.Resembles doc' → doc.fullPatch.AlikeIf P doc'.fullPatch
  | ⟨type, values, dirty, raw⟩, doc', hpure, ⟨htype, hvalues⟩ => by
    have hencoders := encodersAlike_unmarkedEntries values doc'.values
      (fun hP => (hpure hP).values) hvalues
    rw [Document.fullPatch_eq_writings, Document.fullPatch_eq_writings, Document.writings,
      Document.writings, ← bind_pure_comp, ← bind_pure_comp, ← htype]
    exact AlikeIf.bind ((hencoders.writeFields (fun hP => (hpure hP).fields) _).seq
      (hencoders.writeUndeclared _) _) _
termination_by structural doc => doc

/-- Their keys are stored alike, too. -/
theorem Document.keyJson_alikeIf {P : Prop} : ∀ (doc doc' : Document), (P → doc.HasPureRules) →
    doc.Resembles doc' → doc.keyJson.AlikeIf P doc'.keyJson
  | ⟨type, values, dirty, raw⟩, ⟨type', values', _, _⟩, hpure, ⟨htype, hvalues⟩ => by
    obtain rfl : type = type' := htype
    exact (encodersAlike_unmarkedEntries values values' (fun hP => (hpure hP).values)
      hvalues).keyFrom fun hP => (hpure hP).fields
termination_by structural doc => doc

end

/-! ### Documents -/

namespace Document.Resembles

variable {doc doc' : Document} (h : doc.Resembles doc') {name : String}

include h

theorem get? (name : String) : (Entries.get? doc.values name).map Value.unmarked =
    (Entries.get? doc'.values name).map Value.unmarked := by
  rw [← get?_unmarkedEntries, h.values, get?_unmarkedEntries]

theorem inDocument (name : String) :
    (Place.inDocument doc name).Resembles (Place.inDocument doc' name) :=
  ⟨by rw [Place.inDocument, Place.inDocument, h.type], h.get? name⟩

theorem hasAttribute : doc.HasAttribute name ↔ doc'.HasAttribute name := by
  have hsome := congrArg Option.isSome (h.get? name)
  rw [Option.isSome_map, Option.isSome_map] at hsome
  rw [HasAttribute, HasAttribute, hsome, h.type]

theorem storedName : doc.storedName name = doc'.storedName name := by
  simp only [Document.storedName, Place.inDocument, Place.storageName, h.type]

/-- Marks have no part in where attributes are stored. -/
theorem storedApart (hapart : doc'.StoredApart) : doc.StoredApart := by
  refine ⟨h.type ▸ hapart.type, ?_, fun a b ha hb hab => ?_, fun hclass name hname => ?_⟩
  · rw [← map_fst_unmarkedEntries, h.values, map_fst_unmarkedEntries]
    exact hapart.values
  · rw [h.storedName, h.storedName] at hab
    exact hapart.injective a b (h.hasAttribute.mp ha) (h.hasAttribute.mp hb) hab
  · rw [h.storedName]
    exact hapart.apartFromClass (h.type ▸ hclass) name (h.hasAttribute.mp hname)

theorem lacksNoDefault (hdefaults : doc'.LacksNoDefault) : doc.LacksNoDefault := by
  intro name f hf hnone
  have hget := h.get? name
  rw [hnone, Option.map_none, eq_comm, Option.map_eq_none_iff] at hget
  exact hdefaults name f (h.type ▸ hf) hget

end Document.Resembles

/-- The object has the stored form of a document that is the same up to its marks. -/
def Document.StoredUpToMarks (doc : Document) (o : Object) : Prop :=
  ∃ doc' : Document, doc'.Resembles doc ∧ doc'.Stores o

/-! ### Places -/

namespace Place.Resembles

variable {p q : Place} {f : Option Field}

/-- **What lives at two such places is stored alike**, if it can be stored at both. -/
theorem alike (h : p.Resembles q) {j j' : Json} (hp : p.toJson.Gives j) (hq : q.toJson.Gives j') :
    p.toJson.Alike q.toJson := by
  suffices p.toJson.AlikeIf False q.toJson from this (.inr ⟨⟨j, hp⟩, j', hq⟩)
  obtain ⟨f, v⟩ := p
  obtain ⟨g, w⟩ := q
  obtain ⟨rfl, hvalue⟩ := h
  cases v with
  | none =>
    cases w with
    | none => exact .refl _
    | some w => cases hvalue
  | some v =>
    cases w with
    | none => cases hvalue
    | some w =>
      have hsame : v.unmarked = w.unmarked := Option.some.inj hvalue
      cases f with
      | none => exact v.plain_alikeIf w False.elim hsame
      | some f => exact v.encode_alikeIf w f False.elim False.elim hsame

/-- What is stored at a place that has one stored form only is stored at a resembling one. -/
theorem eq_of_determined (h : p.Resembles q) (hdetermined : q.toJson.Determined) {j j' : Json}
    (hp : p.toJson.Gives j) (hq : q.toJson.Gives j') : j = j' :=
  hdetermined j j' ((h.alike hp hq).gives hp) hq

/-- A place without value resembles itself only, and so does one with a value without parts. -/
theorem eq_of_noParts (h : p.Resembles q) (hq : ∀ v, q.value = some v → v.hasParts = false) :
    p = q := by
  obtain ⟨f, v⟩ := p
  obtain ⟨g, w⟩ := q
  obtain ⟨rfl, hvalue⟩ := h
  cases w with
  | none =>
    obtain rfl : v = none := Option.map_eq_none_iff.mp hvalue
    rfl
  | some w =>
    obtain ⟨v', rfl, hv⟩ := Option.map_eq_some_iff.mp hvalue
    rw [Value.eq_of_unmarked_eq (hq w rfl) hv.symm]

theorem list {items : List Value} (h : p.Resembles ⟨f, some (.list items)⟩) :
    ∃ items' : List Value, p = ⟨f, some (.list items')⟩ ∧ items'.length = items.length ∧
      ∀ i : Nat, items'[i]?.map Value.unmarked = items[i]?.map Value.unmarked := by
  obtain ⟨g, v⟩ := p
  obtain ⟨rfl, hvalue⟩ := h
  obtain ⟨v', rfl, hv⟩ := Option.map_eq_some_iff.mp hvalue
  obtain ⟨items', rfl, hitems⟩ := Value.unmarked_eq_list hv.symm
  refine ⟨items', rfl, ?_, fun i => ?_⟩
  · rw [← length_unmarkedItems, ← hitems, length_unmarkedItems]
  · rw [← getElem?_unmarkedItems, ← hitems, getElem?_unmarkedItems]

theorem dict {entries : List (String × Value)} (h : p.Resembles ⟨f, some (.dict entries)⟩) :
    ∃ entries', p = ⟨f, some (.dict entries')⟩ ∧ ∀ key,
      (Entries.get? entries' key).map Value.unmarked =
        (Entries.get? entries key).map Value.unmarked := by
  obtain ⟨g, v⟩ := p
  obtain ⟨rfl, hvalue⟩ := h
  obtain ⟨v', rfl, hv⟩ := Option.map_eq_some_iff.mp hvalue
  obtain ⟨entries', rfl, hentries⟩ := Value.unmarked_eq_dict hv.symm
  refine ⟨entries', rfl, fun key => ?_⟩
  rw [← get?_unmarkedEntries, ← hentries, get?_unmarkedEntries]

theorem document {doc : Document} (h : p.Resembles ⟨f, some (.document doc)⟩) :
    ∃ doc', p = ⟨f, some (.document doc')⟩ ∧ doc'.unmarked = doc.unmarked := by
  obtain ⟨g, v⟩ := p
  obtain ⟨rfl, hvalue⟩ := h
  obtain ⟨v', rfl, hv⟩ := Option.map_eq_some_iff.mp hvalue
  obtain ⟨doc', rfl, hdoc⟩ := Value.unmarked_eq_document hv.symm
  exact ⟨doc', rfl, hdoc.symm⟩

end Place.Resembles

end DocumentMapper
