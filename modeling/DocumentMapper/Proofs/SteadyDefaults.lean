import DocumentMapper.Proofs.StoredDocuments

/-!
# Stored forms that no generator can spoil

A missing attribute is stored as its default, and a default can be the next value of a generator. A
field may accept one value and refuse the next one, so that a document which could be stored cannot
be stored again.

A value is steady if this does not happen in it. Then whether it can be stored does not depend on
the supply. The proof compares two runs of one computation from any two supplies: they fail alike,
or their results are related. What has to be related is whether a stored form is null, since a
reference to a document without a key is refused.

## Main results

* `Value.steady_encode`, `Document.steady_fullPatch`: a steady value is encoded alike from every
  supply;
* `Drawing.Matches.succeeds`: what succeeds once, then always succeeds.
-/

namespace DocumentMapper

open Drawing

/-! ### Two runs -/

/-- Both outcomes are failures, or both are results, which are related. -/
inductive SameOutcome {α : Type} (R : α → α → Prop) : Except Error α → Except Error α → Prop
  | ok {a b : α} (h : R a b) : SameOutcome R (.ok a) (.ok b)
  | error (cause cause' : Error) : SameOutcome R (.error cause) (.error cause')

namespace Drawing

variable {α β : Type} {R : α → α → Prop} {S : β → β → Prop}

/-- Two computations have the same outcome, each from any supply. -/
def Matches (R : α → α → Prop) (x y : Drawing α) : Prop :=
  ∀ s t, SameOutcome R (x.runFrom s).1 (y.runFrom t).1

/-- A computation succeeds from every supply. -/
def Succeeds (x : Drawing α) : Prop :=
  x.Ends fun _ => True

/-- No results but that there is one. -/
def AnyResults (_ _ : α) : Prop :=
  True

/-- Both stored forms are null, or none is. -/
def AlikeNull (j j' : Json) : Prop :=
  j.isNull = j'.isNull

theorem Matches.pure {a b : α} (h : R a b) : Matches R (pure a) (pure b) :=
  fun _ _ => .ok h

theorem Matches.throw (cause cause' : Error) : Matches R (throw cause) (throw cause') :=
  fun _ _ => .error cause cause'

theorem Matches.bind {x y : Drawing α} {f g : α → Drawing β} (hx : Matches R x y)
    (hf : ∀ a b, R a b → Matches S (f a) (g b)) : Matches S (x >>= f) (y >>= g) := by
  intro s t
  have hfirst := hx s t
  rw [runFrom_bind, runFrom_bind]
  rcases hxs : x.runFrom s with ⟨cause | a, s'⟩ <;>
    rcases hyt : y.runFrom t with ⟨cause' | b, t'⟩ <;>
    rw [hxs, hyt] at hfirst <;> cases hfirst
  · exact .error _ _
  · exact hf a b ‹_› s' t'

/-- What succeeds from one supply succeeds from every supply, if its outcome is always the same. -/
theorem Matches.succeeds {x : Drawing α} (h : Matches R x x) {a : α} (hx : x.Gives a) :
    x.Succeeds := by
  obtain ⟨s, t, hrun⟩ := hx
  intro s'
  have hsame := h s s'
  rw [hrun] at hsame
  rcases hrun' : x.runFrom s' with ⟨cause | b, t'⟩
  · rw [hrun'] at hsame
    cases hsame
  · exact ⟨b, t', rfl, trivial⟩

theorem Succeeds.pure (a : α) : Succeeds (pure a : Drawing α) :=
  Ends.pure trivial

theorem Succeeds.bind {x : Drawing α} {f : α → Drawing β} (hx : x.Succeeds)
    (hf : ∀ a, (f a).Succeeds) : (x >>= f).Succeeds :=
  Ends.bind hx fun a _ => hf a

theorem Succeeds.gives {x : Drawing α} (h : x.Succeeds) : ∃ a, x.Gives a := by
  obtain ⟨a, t, hrun, -⟩ := h .fresh
  exact ⟨a, .fresh, t, hrun⟩

end Drawing

/-! ### Values without parts -/

theorem Number.Double.matches_toJson (x : Double) : Matches AlikeNull x.toJson x.toJson := by
  unfold toJson
  split
  · exact .pure rfl
  · exact .throw _ _

theorem Value.matches_leafJson (v : Value) : Matches AlikeNull v.leafJson v.leafJson := by
  cases v with
  | float x => exact x.matches_toJson
  | _ => exact .pure rfl

namespace Field

variable (f : Field)

theorem matches_refuse {α : Type} {R : α → α → Prop} (cause : ValueError) :
    Matches R (f.refuse cause) (f.refuse cause) :=
  .throw _ _

theorem matches_check (v : Value) : Matches AnyResults (f.check v) (f.check v) := by
  unfold check
  split
  · exact f.matches_refuse _
  · exact .pure trivial

/-- A field refuses and checks alike from every supply. -/
theorem checkedAlike_steady (v : Value) : CheckedAlike (Matches AlikeNull) v v f f where
  kind := rfl
  refused _ _ := .throw _ _
  checked h := .bind (f.matches_check v) fun _ _ _ => h

theorem matches_encodeScalar (s : Scalar) (v : Value) :
    Matches AlikeNull (f.encodeScalar s v) (f.encodeScalar s v) := by
  unfold encodeScalar
  split
  · exact v.matches_leafJson
  · exact .pure rfl
  · exact .pure rfl
  · split
    · exact .pure rfl
    · exact f.matches_refuse _
  · exact Number.Double.matches_toJson _
  · exact Number.Double.matches_toJson _
  · exact .pure rfl
  · exact .pure rfl
  · split
    · exact .pure rfl
    · exact f.matches_refuse _
  · exact .pure rfl
  · exact .pure rfl
  · exact f.matches_refuse _

theorem matches_encodeLeaf (v : Value) : Matches AlikeNull (f.encodeLeaf v) (f.encodeLeaf v) := by
  unfold encodeLeaf
  refine .bind (f.matches_check v) fun _ _ _ => ?_
  split
  · exact f.matches_encodeScalar _ v
  · exact f.matches_refuse _
  · unfold encodeId
    split <;> first | exact .pure rfl | exact f.matches_refuse _
  · unfold encodeGeneric
    split
    · exact .pure rfl
    · exact f.matches_refuse _
  · exact f.matches_refuse _
  · exact f.matches_refuse _

variable {key : Drawing Json} (hkey : Matches AlikeNull key key)
include hkey

theorem matches_linkId : Matches AlikeNull (f.linkId key) (f.linkId key) := by
  unfold linkId
  refine .bind hkey fun j j' hnull => ?_
  rw [← hnull]
  split
  · exact f.matches_refuse _
  · exact .pure hnull

theorem matches_linkEnvelope (t : DocumentType) :
    Matches AlikeNull (f.linkEnvelope t key) (f.linkEnvelope t key) := by
  unfold linkEnvelope
  refine .bind (R := AnyResults) ?_ fun _ _ _ => .pure rfl
  unfold linkParts
  split
  · exact .bind (f.matches_linkId hkey) fun _ _ _ => .pure trivial
  · exact f.matches_refuse _

end Field

theorem DocumentType.matches_linkJson (t : DocumentType) {key : Drawing Json}
    (hkey : Matches AlikeNull key key) : Matches AlikeNull (t.linkJson key) (t.linkJson key) := by
  unfold linkJson
  refine .bind hkey fun j j' hnull => ?_
  split
  · exact .pure rfl
  · exact .pure hnull

/-! ### Steady values -/

/-- Whether the default of a field can be stored does not depend on what generators have given. -/
def Field.HasSteadyDefault (f : Field) : Prop :=
  Matches AlikeNull f.encodeDefault f.encodeDefault

mutual

/-- The types of the documents in the value are built, and the defaults that stand for what they
miss are steady. -/
def Value.Steady : Value → Prop
  | .list items => steadyItems items
  | .dict entries => steadyEntries entries
  | .document doc | .linked doc => doc.Steady
  | _ => True
termination_by structural v => v

/-- The same for some values. -/
def steadyItems : List Value → Prop
  | [] => True
  | v :: vs => v.Steady ∧ steadyItems vs
termination_by structural vs => vs

/-- The same for the values of some entries. -/
def steadyEntries : List (String × Value) → Prop
  | [] => True
  | (_, v) :: rest => v.Steady ∧ steadyEntries rest
termination_by structural es => es

/-- The same for a document. -/
def Document.Steady : Document → Prop
  | ⟨type, values, _, _⟩ =>
    type.Built ∧
      (∀ f ∈ type.fields, Entries.get? values f.name = none → f.HasSteadyDefault) ∧
      steadyEntries values
termination_by structural doc => doc

end

theorem steady_item {items : List Value} (h : steadyItems items) {i : Nat} {v : Value}
    (hv : items[i]? = some v) : v.Steady := by
  induction items generalizing i with
  | nil => simp at hv
  | cons w ws ih =>
    cases i with
    | zero =>
      obtain rfl : w = v := by simpa using hv
      exact h.1
    | succ i => exact ih h.2 (by simpa using hv)

theorem steady_entry {entries : List (String × Value)} (h : steadyEntries entries) {key : String}
    {v : Value} (hv : Entries.get? entries key = some v) : v.Steady := by
  induction entries with
  | nil => cases hv
  | cons e rest ih =>
    obtain ⟨k, w⟩ := e
    rw [Entries.get?_cons] at hv
    split at hv
    · obtain rfl := Option.some.inj hv
      exact h.1
    · exact ih h.2 hv

namespace Document

variable {doc : Document}

theorem steady_iff : doc.Steady ↔
    doc.type.Built ∧
      (∀ f ∈ doc.type.fields, Entries.get? doc.values f.name = none → f.HasSteadyDefault) ∧
      steadyEntries doc.values := by
  obtain ⟨type, values, dirty, raw⟩ := doc
  rfl

theorem Steady.built (h : doc.Steady) : doc.type.Built :=
  (steady_iff.mp h).1

theorem Steady.defaults (h : doc.Steady) {f : Field} (hf : f ∈ doc.type.fields)
    (hnone : Entries.get? doc.values f.name = none) : f.HasSteadyDefault :=
  (steady_iff.mp h).2.1 f hf hnone

theorem Steady.values (h : doc.Steady) {name : String} {v : Value}
    (hv : Entries.get? doc.values name = some v) : v.Steady :=
  steady_entry (steady_iff.mp h).2.2 hv

end Document

/-! ### Assembling a document -/

/-- Encoders that have the same outcome from every supply. -/
def SteadyEncoders (encoders : List (String × Encoder)) : Prop :=
  ∀ e ∈ encoders, ∀ f, Matches AlikeNull (e.2 f) (e.2 f)

namespace SteadyEncoders

variable {encoders : List (String × Encoder)}

theorem encoderOf (h : SteadyEncoders encoders) {name : String} {encode : Encoder}
    (hencode : DocumentMapper.encoderOf encoders name = some encode) (f : Field) :
    Matches AlikeNull (encode f) (encode f) :=
  h (name, encode) (Entries.mem_of_get? hencode) f

theorem assembleFields (h : SteadyEncoders encoders) {fields : List Field}
    (hdefaults : ∀ f ∈ fields, DocumentMapper.encoderOf encoders f.name = none →
      f.HasSteadyDefault) (key : Option String) (p p' : Patch) :
    Matches AnyResults (DocumentMapper.assembleFields fields key encoders p)
      (DocumentMapper.assembleFields fields key encoders p') := by
  induction fields generalizing p p' with
  | nil => exact .pure trivial
  | cons f fs ih =>
    obtain ⟨hf, hfs⟩ := List.forall_mem_cons.mp hdefaults
    rw [assembleFields_cons, assembleFields_cons]
    refine .bind (R := AlikeNull) ?_ fun j j' hnull => ?_
    · cases hencode : DocumentMapper.encoderOf encoders f.name with
      | some encode => exact h.encoderOf hencode f
      | none => exact hf hencode
    · rw [show j'.isNull = j.isNull from hnull.symm]
      split
      · exact ih hfs p p'
      · exact ih hfs _ _

theorem addUndeclared (h : SteadyEncoders encoders) (fields : List Field) (p p' : Patch) :
    Matches AnyResults (DocumentMapper.addUndeclared fields encoders p)
      (DocumentMapper.addUndeclared fields encoders p') := by
  induction encoders generalizing p p' with
  | nil => exact .pure trivial
  | cons e rest ih =>
    obtain ⟨name, encode⟩ := e
    obtain ⟨hencode, hrest⟩ := List.forall_mem_cons.mp h
    simp only [DocumentMapper.addUndeclared]
    split
    · exact ih hrest p p'
    · exact .bind (hencode _) fun _ _ _ => ih hrest _ _

theorem assemble (h : SteadyEncoders encoders) {t : DocumentType}
    (hdefaults : ∀ f ∈ t.fields, DocumentMapper.encoderOf encoders f.name = none →
      f.HasSteadyDefault) : Matches AnyResults (t.assemble encoders) (t.assemble encoders) := by
  obtain ⟨name, className, collection, fields, key, isDynamic, inheritance, superclass⟩ := t
  exact .bind (h.assembleFields hdefaults key _ _) fun p p' _ => h.addUndeclared fields p p'

theorem keyFrom (h : SteadyEncoders encoders) (t : DocumentType) :
    Matches AlikeNull (t.keyFrom encoders) (t.keyFrom encoders) := by
  unfold DocumentType.keyFrom
  split
  · split
    · rename_i hencode
      exact h.encoderOf hencode _
    · exact .pure rfl
  · exact .pure rfl

end SteadyEncoders

/-! ### Encoding -/

mutual

/-- A steady value on its own is encoded alike from every supply. -/
theorem Value.steady_plain : ∀ (v : Value), v.Steady → Matches AlikeNull v.plain v.plain
  | .list items, h => .bind (steady_plainItems items h) fun _ _ _ => .pure rfl
  | .dict entries, h => .bind (steady_plainEntries entries h) fun _ _ _ => .pure rfl
  | .document doc, h => .bind (doc.steady_fullPatch h) fun _ _ _ => .pure rfl
  | .linked doc, h => doc.type.matches_linkJson (doc.steady_keyJson h)
  | .null, _ => .pure rfl
  | .bool _, _ => .pure rfl
  | .int _, _ => .pure rfl
  | .float x, _ => x.matches_toJson
  | .string _, _ => .pure rfl
  | .datetime _, _ => .pure rfl
  | .reference _, _ => .pure rfl
termination_by structural v => v

/-- The same for some values. -/
theorem steady_plainItems : ∀ (vs : List Value), steadyItems vs →
    Matches AnyResults (plainItems vs) (plainItems vs)
  | [], _ => .pure trivial
  | v :: vs, h =>
    .bind (v.steady_plain h.1) fun _ _ _ => .bind (steady_plainItems vs h.2) fun _ _ _ =>
      .pure trivial
termination_by structural vs => vs

/-- The same for some entries. -/
theorem steady_plainEntries : ∀ (es : List (String × Value)), steadyEntries es →
    Matches AnyResults (plainEntries es) (plainEntries es)
  | [], _ => .pure trivial
  | (_, v) :: rest, h =>
    .bind (v.steady_plain h.1) fun _ _ _ => .bind (steady_plainEntries rest h.2) fun _ _ _ =>
      .pure trivial
termination_by structural es => es

/-- **A steady value is encoded alike from every supply**, whatever the field. -/
theorem Value.steady_encode : ∀ (v : Value), v.Steady → ∀ f,
    Matches AlikeNull (v.encode f) (v.encode f)
  | .list items, h, f =>
    have hplain := steady_plainItems items h
    (f.checkedAlike_steady _).list rfl rfl (.bind hplain fun _ _ _ => .pure rfl)
      (fun _ => .bind hplain fun _ _ _ => .pure rfl)
      fun element _ => .bind (steady_encodeItems items h element) fun _ _ _ => .pure rfl
  | .dict entries, h, f =>
    (f.checkedAlike_steady _).dict (fun _ => rfl)
      (.bind (steady_plainEntries entries h) fun _ _ _ => .pure rfl)
      fun element _ => .bind (steady_encodeEntries entries h f element) fun _ _ _ => .pure rfl
  | .document doc, h, f =>
    have hkey := doc.steady_keyJson h
    (f.checkedAlike_steady _).document rfl (.bind (doc.steady_fullPatch h) fun _ _ _ => .pure rfl)
      (f.matches_linkId hkey) (f.matches_linkEnvelope hkey _)
  | .linked doc, h, f =>
    have hkey := doc.steady_keyJson h
    (f.checkedAlike_steady _).linked (doc.type.matches_linkJson hkey) (f.matches_linkId hkey)
      (f.matches_linkEnvelope hkey _)
  | .null, _, _ => .pure rfl
  | .bool b, _, f => f.matches_encodeLeaf (.bool b)
  | .int n, _, f => f.matches_encodeLeaf (.int n)
  | .float x, _, f => f.matches_encodeLeaf (.float x)
  | .string s, _, f => f.matches_encodeLeaf (.string s)
  | .datetime i, _, f => f.matches_encodeLeaf (.datetime i)
  | .reference r, _, f => f.matches_encodeLeaf (.reference r)
termination_by structural v => v

/-- The same for the items of a list. -/
theorem steady_encodeItems : ∀ (vs : List Value), steadyItems vs → ∀ element,
    Matches AnyResults (encodeItems vs element) (encodeItems vs element)
  | [], _, _ => .pure trivial
  | v :: vs, h, element =>
    .bind (v.steady_encode h.1 element) fun _ _ _ =>
      .bind (steady_encodeItems vs h.2 element) fun _ _ _ => .pure trivial
termination_by structural vs => vs

/-- The same for the entries of a dict. -/
theorem steady_encodeEntries : ∀ (es : List (String × Value)), steadyEntries es → ∀ f element,
    Matches AnyResults (encodeEntries es f element) (encodeEntries es f element)
  | [], _, _, _ => .pure trivial
  | (_, v) :: rest, h, f, element => by
    simp only [encodeEntries]
    split
    · exact f.matches_refuse _
    · exact .bind (v.steady_encode h.1 element) fun _ _ _ =>
        .bind (steady_encodeEntries rest h.2 f element) fun _ _ _ => .pure trivial
termination_by structural es => es

/-- The same for the attributes of a document. -/
theorem steady_encodersOf : ∀ (es : List (String × Value)), steadyEntries es →
    SteadyEncoders (encodersOf es)
  | [], _ => fun _ he => absurd he List.not_mem_nil
  | (_, v) :: rest, h => by
    intro e he f
    rcases List.mem_cons.mp he with rfl | he
    · exact v.steady_encode h.1 f
    · exact steady_encodersOf rest h.2 e he f
termination_by structural es => es

/-- **A steady document is stored alike from every supply.** -/
theorem Document.steady_fullPatch : ∀ (doc : Document), doc.Steady →
    Matches AnyResults doc.fullPatch doc.fullPatch
  | ⟨type, values, dirty, raw⟩, h => by
    refine (steady_encodersOf values h.2.2).assemble fun f hf hnone => ?_
    exact h.2.1 f hf (by simpa using hnone)
termination_by structural doc => doc

/-- Its key is stored alike from every supply. -/
theorem Document.steady_keyJson : ∀ (doc : Document), doc.Steady →
    Matches AlikeNull doc.keyJson doc.keyJson
  | ⟨type, values, _, _⟩, h => (steady_encodersOf values h.2.2).keyFrom type
termination_by structural doc => doc

end

/-- **What lives at a place is steady if its value is.** -/
theorem Place.steady_toJson {p : Place} (h : ∀ v, p.value = some v → v.Steady) :
    Matches AlikeNull p.toJson p.toJson := by
  obtain ⟨f, v⟩ := p
  cases v with
  | none => exact .pure rfl
  | some v =>
    cases f with
    | none => exact v.steady_plain (h v rfl)
    | some f => exact v.steady_encode (h v rfl) f

end DocumentMapper
