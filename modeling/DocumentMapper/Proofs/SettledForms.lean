import DocumentMapper.Proofs.SeparateStorage

/-!
# Stored forms that draw nothing

A missing attribute is stored as its default, and a generated default is drawn. Where no attribute
waits for a default there is nothing to draw: the stored form is the same from every supply, and the
supply is left as it was.

Linked documents are the exception. They are stored by their keys and do not take defaults, so that
a key which holds a document can draw for it. A value is settled if no link in it does this.

## Main results

* `Value.encode_drawsNothing`, `Document.fullPatch_drawsNothing`: what is settled and complete is
  stored without drawing.
-/

namespace DocumentMapper

open Drawing

/-! ### Computations that draw nothing -/

namespace Drawing

variable {α β : Type}

/-- The outcome, if there is one, is the same from every supply, and nothing is drawn for it. -/
def DrawsNothing (x : Drawing α) : Prop :=
  ∀ a, x.Gives a → x.Yields a

theorem DrawsNothing.pure (a : α) : DrawsNothing (pure a : Drawing α) := by
  rintro b hb
  rw [gives_pure.mp hb]
  exact .pure a

theorem DrawsNothing.throw (cause : Error) : DrawsNothing (throw cause : Drawing α) :=
  fun _ h => absurd h not_gives_throw

theorem DrawsNothing.bind {x : Drawing α} {f : α → Drawing β} (hx : x.DrawsNothing)
    (hf : ∀ a, (f a).DrawsNothing) : (x >>= f).DrawsNothing := by
  intro b hb
  obtain ⟨a, ha, hfa⟩ := hb.of_bind
  exact (hx a ha).bind (hf a b hfa)

theorem DrawsNothing.map {x : Drawing α} (hx : x.DrawsNothing) (f : α → β) :
    (x >>= fun a => Pure.pure (f a)).DrawsNothing :=
  hx.bind fun _ => .pure _

theorem DrawsNothing.fmap {x : Drawing α} (hx : x.DrawsNothing) (f : α → β) :
    (f <$> x).DrawsNothing :=
  bind_pure_comp f x ▸ hx.map f

theorem DrawsNothing.determined {x : Drawing α} (h : x.DrawsNothing) : x.Determined :=
  fun a _ ha hb => ((h a ha).eq_of_gives hb).symm

end Drawing

/-! ### Values without parts -/

theorem Number.Double.drawsNothing_toJson (x : Double) : x.toJson.DrawsNothing := by
  unfold toJson
  split
  · exact .pure _
  · exact .throw _

theorem Value.drawsNothing_leafJson (v : Value) : v.leafJson.DrawsNothing := by
  cases v with
  | float x => exact x.drawsNothing_toJson
  | _ => exact .pure _

namespace Field

variable (f : Field)

theorem drawsNothing_refuse {α : Type} (cause : ValueError) :
    (f.refuse cause : Drawing α).DrawsNothing :=
  .throw _

theorem drawsNothing_check (v : Value) : (f.check v).DrawsNothing := by
  unfold check
  split
  · exact f.drawsNothing_refuse _
  · exact .pure _

/-- A field refuses and checks without drawing. -/
theorem checkedAlike_drawsNothing (v : Value) :
    CheckedAlike (fun x _ => x.DrawsNothing) v v f f where
  kind := rfl
  refused _ _ := .throw _
  checked h := (f.drawsNothing_check v).bind fun _ => h

theorem drawsNothing_encodeScalar (s : Scalar) (v : Value) : (f.encodeScalar s v).DrawsNothing := by
  unfold encodeScalar
  split
  · exact v.drawsNothing_leafJson
  · exact .pure _
  · exact .pure _
  · split
    · exact .pure _
    · exact f.drawsNothing_refuse _
  · exact Number.Double.drawsNothing_toJson _
  · exact Number.Double.drawsNothing_toJson _
  · exact .pure _
  · exact .pure _
  · split
    · exact .pure _
    · exact f.drawsNothing_refuse _
  · exact .pure _
  · exact .pure _
  · exact f.drawsNothing_refuse _

/-- A value without parts is stored without drawing. -/
theorem drawsNothing_encodeLeaf (v : Value) : (f.encodeLeaf v).DrawsNothing := by
  unfold encodeLeaf
  refine .bind (f.drawsNothing_check v) fun _ => ?_
  split
  · exact f.drawsNothing_encodeScalar _ v
  · exact f.drawsNothing_refuse _
  · unfold encodeId
    split <;> first | exact .pure _ | exact f.drawsNothing_refuse _
  · unfold encodeGeneric
    split
    · exact .pure _
    · exact f.drawsNothing_refuse _
  · exact f.drawsNothing_refuse _
  · exact f.drawsNothing_refuse _

variable {key : Drawing Json} (hkey : key.DrawsNothing)
include hkey

theorem drawsNothing_linkId : (f.linkId key).DrawsNothing := by
  unfold linkId
  refine .bind hkey fun id => ?_
  split
  · exact f.drawsNothing_refuse _
  · exact .pure _

theorem drawsNothing_linkEnvelope (t : DocumentType) : (f.linkEnvelope t key).DrawsNothing := by
  unfold linkEnvelope linkParts
  refine .map ?_ _
  split
  · exact (f.drawsNothing_linkId hkey).map _
  · exact f.drawsNothing_refuse _

end Field

theorem DocumentType.drawsNothing_linkJson (t : DocumentType) {key : Drawing Json}
    (hkey : key.DrawsNothing) : (t.linkJson key).DrawsNothing := by
  unfold linkJson
  refine .bind hkey fun id => ?_
  split
  · exact .pure _
  · exact .pure _

/-! ### Settled values -/

mutual

/-- The types of the documents in the value are built, and the keys of its links draw nothing. -/
def Value.Settled : Value → Prop
  | .list items => settledItems items
  | .dict entries => settledEntries entries
  | .document doc => doc.Settled
  | .linked doc => doc.keyJson.DrawsNothing
  | _ => True
termination_by structural v => v

/-- The same for some values. -/
def settledItems : List Value → Prop
  | [] => True
  | v :: vs => v.Settled ∧ settledItems vs
termination_by structural vs => vs

/-- The same for the values of some entries. -/
def settledEntries : List (String × Value) → Prop
  | [] => True
  | (_, v) :: rest => v.Settled ∧ settledEntries rest
termination_by structural es => es

/-- The same for a document. -/
def Document.Settled : Document → Prop
  | ⟨type, values, _, _⟩ => type.Built ∧ settledEntries values
termination_by structural doc => doc

end

/-! ### Writing a document -/

/-- What a field stores, with the encoders of the attributes. -/
def Field.storedBy (f : Field) (encoders : List (String × Encoder)) : Drawing Json :=
  match encoderOf encoders f.name with
  | some encode => encode f
  | none => f.encodeDefault

/-- A field writes what it stores, unless it is a primary key that would be null. -/
theorem writeFields_storedBy (key : Option String) (encoders : List (String × Encoder)) (f : Field)
    (fs : List Field) :
    writeFields key encoders (f :: fs) = f.storedBy encoders >>= fun j => do
      let others ← writeFields key encoders fs
      if j.isNull && key == some f.name then return others
      else return ⟨f.name, f.storageName, j⟩ :: others := by
  rw [writeFields_cons]
  rfl

/-- Fields that draw nothing are written without drawing. -/
theorem drawsNothing_writeFields {encoders : List (String × Encoder)} {fields : List Field}
    (h : ∀ f ∈ fields, (f.storedBy encoders).DrawsNothing) (key : Option String) :
    (writeFields key encoders fields).DrawsNothing := by
  induction fields with
  | nil => exact .pure _
  | cons f fs ih =>
    obtain ⟨hf, hfs⟩ := List.forall_mem_cons.mp h
    rw [writeFields_storedBy]
    refine .bind hf fun j => .bind (ih hfs) fun others => ?_
    split
    · exact .pure _
    · exact .pure _

/-- Encoders that draw nothing. -/
def SettledEncoders (encoders : List (String × Encoder)) : Prop :=
  ∀ e ∈ encoders, ∀ f, (e.2 f).DrawsNothing

namespace SettledEncoders

variable {encoders : List (String × Encoder)}

theorem encoderOf (h : SettledEncoders encoders) {name : String} {encode : Encoder}
    (hencode : DocumentMapper.encoderOf encoders name = some encode) (f : Field) :
    (encode f).DrawsNothing :=
  h (name, encode) (Entries.mem_of_get? hencode) f

theorem storedBy (h : SettledEncoders encoders) {f : Field}
    (hdefault : DocumentMapper.encoderOf encoders f.name = none → f.encodeDefault.DrawsNothing) :
    (f.storedBy encoders).DrawsNothing := by
  unfold Field.storedBy
  split
  · rename_i hencode
    exact h.encoderOf hencode f
  · rename_i hencode
    exact hdefault hencode

theorem writeUndeclared (h : SettledEncoders encoders) (fields : List Field) :
    (DocumentMapper.writeUndeclared fields encoders).DrawsNothing := by
  induction encoders with
  | nil => exact .pure _
  | cons e rest ih =>
    obtain ⟨name, encode⟩ := e
    obtain ⟨hencode, hrest⟩ := List.forall_mem_cons.mp h
    simp only [DocumentMapper.writeUndeclared]
    split
    · exact ih hrest
    · exact .bind (hencode _) fun _ => (ih hrest).map _

theorem keyFrom (h : SettledEncoders encoders) (t : DocumentType) :
    (t.keyFrom encoders).DrawsNothing := by
  unfold DocumentType.keyFrom
  split
  · split
    · rename_i hencode
      exact h.encoderOf hencode _
    · exact .pure _
  · exact .pure _

end SettledEncoders

/-- A field without default draws nothing for a missing value. -/
theorem Field.drawsNothing_encodeDefault {f : Field} (h : f.default = none) :
    f.encodeDefault.DrawsNothing := by
  obtain ⟨name, storageName, isRequired, kind, default, validator⟩ := f
  subst h
  exact .pure _

/-! ### Encoding -/

mutual

/-- A settled and complete value on its own is stored without drawing. -/
theorem Value.plain_drawsNothing : ∀ (v : Value), v.Complete → v.Settled → v.plain.DrawsNothing
  | .list items, hc, hs => (plainItems_drawNothing items hc hs).map _
  | .dict entries, hc, hs => (plainEntries_drawNothing entries hc hs).map _
  | .document doc, hc, hs => (doc.fullPatch_drawsNothing hc hs).map _
  | .linked doc, _, hs => doc.type.drawsNothing_linkJson hs
  | .null, _, _ => .pure _
  | .bool _, _, _ => .pure _
  | .int _, _, _ => .pure _
  | .float x, _, _ => x.drawsNothing_toJson
  | .string _, _, _ => .pure _
  | .datetime _, _, _ => .pure _
  | .reference _, _, _ => .pure _
termination_by structural v => v

/-- The same for some values. -/
theorem plainItems_drawNothing : ∀ (vs : List Value), completeValues vs → settledItems vs →
    (plainItems vs).DrawsNothing
  | [], _, _ => .pure _
  | v :: vs, hc, hs =>
    .bind (v.plain_drawsNothing hc.1 hs.1) fun _ => (plainItems_drawNothing vs hc.2 hs.2).map _
termination_by structural vs => vs

/-- The same for some entries. -/
theorem plainEntries_drawNothing : ∀ (es : List (String × Value)), completeEntries es →
    settledEntries es → (plainEntries es).DrawsNothing
  | [], _, _ => .pure _
  | (_, v) :: rest, hc, hs =>
    .bind (v.plain_drawsNothing hc.1 hs.1) fun _ => (plainEntries_drawNothing rest hc.2 hs.2).map _
termination_by structural es => es

/-- **A settled and complete value is stored without drawing**, whatever the field. -/
theorem Value.encode_drawsNothing : ∀ (v : Value), v.Complete → v.Settled → ∀ f,
    (v.encode f).DrawsNothing
  | .list items, hc, hs, f =>
    have hplain := plainItems_drawNothing items hc hs
    (f.checkedAlike_drawsNothing _).list rfl rfl (hplain.map _) (fun _ => hplain.map _)
      fun element _ => (encodeItems_drawNothing items hc hs element).map _
  | .dict entries, hc, hs, f =>
    (f.checkedAlike_drawsNothing _).dict (fun _ => rfl)
      ((plainEntries_drawNothing entries hc hs).map _)
      fun element _ => (encodeEntries_drawNothing entries hc hs f element).map _
  | .document doc, hc, hs, f =>
    have hkey := doc.keyJson_drawsNothing hc hs
    (f.checkedAlike_drawsNothing _).document rfl ((doc.fullPatch_drawsNothing hc hs).map _)
      (f.drawsNothing_linkId hkey) (f.drawsNothing_linkEnvelope hkey _)
  | .linked doc, _, hs, f =>
    have hkey : doc.keyJson.DrawsNothing := hs
    (f.checkedAlike_drawsNothing _).linked (doc.type.drawsNothing_linkJson hkey)
      (f.drawsNothing_linkId hkey) (f.drawsNothing_linkEnvelope hkey _)
  | .null, _, _, _ => .pure _
  | .bool b, _, _, f => f.drawsNothing_encodeLeaf (.bool b)
  | .int n, _, _, f => f.drawsNothing_encodeLeaf (.int n)
  | .float x, _, _, f => f.drawsNothing_encodeLeaf (.float x)
  | .string s, _, _, f => f.drawsNothing_encodeLeaf (.string s)
  | .datetime i, _, _, f => f.drawsNothing_encodeLeaf (.datetime i)
  | .reference r, _, _, f => f.drawsNothing_encodeLeaf (.reference r)
termination_by structural v => v

/-- The same for the items of a list. -/
theorem encodeItems_drawNothing : ∀ (vs : List Value), completeValues vs → settledItems vs →
    ∀ element, (encodeItems vs element).DrawsNothing
  | [], _, _, _ => .pure _
  | v :: vs, hc, hs, element =>
    .bind (v.encode_drawsNothing hc.1 hs.1 element) fun _ =>
      (encodeItems_drawNothing vs hc.2 hs.2 element).map _
termination_by structural vs => vs

/-- The same for the entries of a dict. -/
theorem encodeEntries_drawNothing : ∀ (es : List (String × Value)), completeEntries es →
    settledEntries es → ∀ f element, (encodeEntries es f element).DrawsNothing
  | [], _, _, _, _ => .pure _
  | (_, v) :: rest, hc, hs, f, element => by
    simp only [encodeEntries]
    split
    · exact f.drawsNothing_refuse _
    · exact .bind (v.encode_drawsNothing hc.1 hs.1 element) fun _ =>
        (encodeEntries_drawNothing rest hc.2 hs.2 f element).map _
termination_by structural es => es

/-- The same for the attributes of a document. -/
theorem settled_encodersOf : ∀ (es : List (String × Value)), completeEntries es →
    settledEntries es → SettledEncoders (encodersOf es)
  | [], _, _ => fun _ he => absurd he List.not_mem_nil
  | (_, v) :: rest, hc, hs => by
    intro e he f
    rcases List.mem_cons.mp he with rfl | he
    · exact v.encode_drawsNothing hc.1 hs.1 f
    · exact settled_encodersOf rest hc.2 hs.2 e he f
termination_by structural es => es

/-- **A settled and complete document is stored without drawing.** -/
theorem Document.fullPatch_drawsNothing : ∀ (doc : Document), doc.Complete → doc.Settled →
    doc.fullPatch.DrawsNothing
  | ⟨type, values, dirty, raw⟩, hc, hs => by
    have hencoders := settled_encodersOf values hc.2 hs.2
    rw [Document.fullPatch_eq_writings]
    refine .fmap (.bind (drawsNothing_writeFields (fun f hf => ?_) _) fun _ =>
      (hencoders.writeUndeclared _).map _) _
    refine hencoders.storedBy fun hnone => f.drawsNothing_encodeDefault ?_
    exact hc.1 f.name f (hs.1.field?_of_mem hf) (by simpa using hnone)
termination_by structural doc => doc

/-- Its key is stored without drawing too. -/
theorem Document.keyJson_drawsNothing : ∀ (doc : Document), doc.Complete → doc.Settled →
    doc.keyJson.DrawsNothing
  | ⟨type, values, _, _⟩, hc, hs => (settled_encodersOf values hc.2 hs.2).keyFrom type
termination_by structural doc => doc

end

namespace Document

variable {doc : Document}

theorem Settled.built (h : doc.Settled) : doc.type.Built := by
  obtain ⟨type, values, dirty, raw⟩ := doc
  exact h.1

/-- The attributes of a settled and complete document are encoded without drawing. -/
theorem Settled.encoders (h : doc.Settled) (hc : doc.Complete) :
    SettledEncoders (encodersOf doc.values) := by
  obtain ⟨type, values, dirty, raw⟩ := doc
  exact settled_encodersOf values hc.2 h.2

/-- Its fields are stored without drawing. -/
theorem Settled.storedBy (h : doc.Settled) (hc : doc.Complete) {f : Field}
    (hf : f ∈ doc.type.fields) : (f.storedBy (encodersOf doc.values)).DrawsNothing := by
  refine (h.encoders hc).storedBy fun hnone => f.drawsNothing_encodeDefault ?_
  exact ((complete_iff doc).mp hc).1 f.name f (h.built.field?_of_mem hf) (by simpa using hnone)

end Document

end DocumentMapper
