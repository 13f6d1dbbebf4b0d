import Mathlib.Logic.Relation
import DocumentMapper.Proofs.BuiltTypes

/-!
# Types that calls declare

A type is declared by calls: one that starts it, as a stored document, an embedded one or a subtype
of a built type, then any others that name its collection and its key, add fields or change its
settings. What a later call says replaces what an earlier one has said, and a subtype starts with
all that its parent has.

Whatever the calls were, a type that can be built is well formed. No call takes the name of a field
away, so a subtype has the names of its parent, and those of all its ancestors.

## Main results

* `Declaration.Calls.keeps`: what calls keep;
* `Declaration.Calls.build_wellFormed`: a type that is built after any calls is well formed.
-/

namespace DocumentMapper

/-- A type whose fields can be told apart by either name. An embedded type has neither collection
nor key. Any other type has a collection with a name, and its key is the one field that is stored as
`_id`. -/
structure DocumentType.WellFormed (t : DocumentType) : Prop where
  names : (t.fields.map Field.name).Nodup
  storageNames : (t.fields.map Field.storageName).Nodup
  byName : ∀ f ∈ t.fields, t.field? f.name = some f
  byStorageName : ∀ f ∈ t.fields, t.storedField? f.storageName = some f
  embedded : t.isEmbedded = true → t.collection = none ∧ t.primaryKey = none
  stored : t.isEmbedded = false → ∃ collection, t.collection = some collection ∧ collection ≠ "" ∧
    ∃ f ∈ t.fields, t.primaryKey = some f.name ∧ f.storageName = idKey ∧
      ∀ g ∈ t.fields, g.storageName = idKey → g = f

namespace Declaration

/-! ### Calls -/

/-- A call on a declaration. -/
inductive Call : Declaration → Declaration → Prop
  | inCollection (d : Declaration) (collection : String) : Call d (d.inCollection collection)
  | withField (d : Declaration) (f : Field) : Call d (d.withField f)
  | withPrimaryKey (d : Declaration) (name : String) : Call d (d.withPrimaryKey name)
  | dynamic (d : Declaration) : Call d d.dynamic
  | inheritable (d : Declaration) : Call d d.inheritable

/-- Any sequence of calls. -/
def Calls : Declaration → Declaration → Prop :=
  Relation.ReflTransGen Call

/-- What calls keep: whether the type is embedded, and the names of its fields. -/
structure Extends (d d' : Declaration) : Prop where
  isEmbedded : d'.isEmbedded = d.isEmbedded
  names : ∀ f ∈ d.fields, f.name ∈ d'.fields.map Field.name

/-- A field takes the place of one of the same name or comes last, so all names stay. -/
theorem mem_names_putField (f : Field) (fs : List Field) (name : String) :
    name ∈ (putField f fs).map Field.name ↔ name = f.name ∨ name ∈ fs.map Field.name := by
  induction fs with
  | nil => simp [putField]
  | cons g gs ih =>
    by_cases hg : g.name = f.name
    · simp [putField, hg]
    · simp only [putField, hg, ↓reduceIte, List.map_cons, List.mem_cons, ih]
      exact or_left_comm

theorem Call.keeps {d d' : Declaration} (h : d.Call d') : d.Extends d' := by
  cases h with
  | withField f =>
    exact ⟨rfl, fun g hg => (mem_names_putField f d.fields g.name).mpr
      (.inr (List.mem_map_of_mem hg))⟩
  | inCollection | withPrimaryKey | dynamic | inheritable =>
    exact ⟨rfl, fun g hg => List.mem_map_of_mem hg⟩

/-- **Calls keep what a declaration has started with.** -/
theorem Calls.keeps {start d : Declaration} (h : start.Calls d) : start.Extends d := by
  induction h with
  | refl => exact ⟨rfl, fun f hf => List.mem_map_of_mem hf⟩
  | tail _ hcall ih =>
    have hkeeps := hcall.keeps
    refine ⟨hkeeps.isEmbedded.trans ih.isEmbedded, fun f hf => ?_⟩
    obtain ⟨g, hg, hname⟩ := List.mem_map.mp (ih.names f hf)
    exact hname ▸ hkeeps.names g hg

/-! ### Building -/

/-- Fields keep their names when the key among them is stored as `_id`. -/
theorem map_name_storeAsId (key : String) (fs : List Field) :
    (storeAsId key fs).map Field.name = fs.map Field.name := by
  induction fs with
  | nil => rfl
  | cons f fs ih =>
    by_cases hf : f.name = key
    · simp [storeAsId, hf]
    · simp [storeAsId, hf, ih]

/-- The declared fields are kept when the key is settled. -/
theorem names_of_resolveKey {d : Declaration} {key : String} {fs : List Field}
    (h : d.resolveKey = .ok (key, fs)) :
    ∀ f ∈ d.fields, f.name ∈ fs.map Field.name := by
  obtain ⟨candidates, hdeclared, -, rfl⟩ := fields_of_resolveKey h
  intro f hf
  rw [map_name_storeAsId]
  exact List.mem_map_of_mem (hdeclared hf)

variable {d : Declaration} {t : DocumentType}

/-- A declaration is built into an embedded type or into another one, as it was started. -/
theorem isEmbedded_of_build (h : d.build = .ok t) : t.isEmbedded = d.isEmbedded := by
  rcases (build_cases h).2 with ⟨hd, hc, -⟩ | ⟨hd, _, _, hc, -⟩
  · rw [hd, DocumentType.isEmbedded, hc]
    rfl
  · rw [hd, DocumentType.isEmbedded, hc]
    rfl

/-- Every declared field has its name in the built type. -/
theorem names_of_build (h : d.build = .ok t) : ∀ f ∈ d.fields, f.name ∈ t.fields.map Field.name := by
  rcases (build_cases h).2 with ⟨-, -, -, hfields⟩ | ⟨-, _, _, -, -, -, hkey⟩
  · rw [hfields]
    exact fun f hf => List.mem_map_of_mem hf
  · exact names_of_resolveKey hkey

/-- What is built is well formed. -/
theorem wellFormed_of_build (h : d.build = .ok t) : t.WellFormed := by
  have hbuilt : t.Built := ⟨d, h⟩
  have hembedded : t.isEmbedded = true → t.collection = none ∧ t.primaryKey = none := by
    intro hnone
    rcases (build_cases h).2 with ⟨-, hc, hk, -⟩ | ⟨-, _, _, hc, -⟩
    · exact ⟨hc, hk⟩
    · rw [DocumentType.isEmbedded, hc] at hnone
      cases hnone
  refine ⟨hbuilt.names_nodup, hbuilt.storageNames_nodup, fun f => hbuilt.field?_of_mem,
    fun f => hbuilt.storedField?_of_mem, hembedded, fun hstored => ?_⟩
  rcases (build_cases h).2 with ⟨-, hc, -⟩ | ⟨-, collection, key, hc, hname, hk, hkey⟩
  · rw [DocumentType.isEmbedded, hc] at hstored
    cases hstored
  · obtain ⟨f, hfound, hid⟩ := resolveKey_eq_ok hkey
    have hf : f ∈ t.fields := List.mem_of_find?_eq_some hfound
    obtain rfl : f.name = key := by simpa using List.find?_some hfound
    refine ⟨collection, hc, by simpa using hname, f, hf, hk, hid, fun g hg hstored => ?_⟩
    exact List.inj_on_of_nodup_map hbuilt.storageNames_nodup hg hf (hstored.trans hid.symm)

/-- **A type that is built after any calls is well formed.** It is embedded if it was started so, and
a subtype is embedded if its parent is. A subtype has every name of its parent, and any type has
the names of all fields that were declared on the way. -/
theorem Calls.build_wellFormed {start : Declaration} (hcalls : start.Calls d)
    (hbuild : d.build = .ok t) :
    t.WellFormed ∧ (∀ f ∈ start.fields, (t.field? f.name).isSome) ∧
      (∀ name, start = document name → t.isEmbedded = false) ∧
      (∀ name, start = embedded name → t.isEmbedded = true) ∧
      (∀ name parent, start = subtype name parent → t.isEmbedded = parent.isEmbedded ∧
        ∀ f ∈ parent.fields, (t.field? f.name).isSome) := by
  have hwell := wellFormed_of_build hbuild
  have hkeeps := hcalls.keeps
  have hkind : t.isEmbedded = start.isEmbedded :=
    (isEmbedded_of_build hbuild).trans hkeeps.isEmbedded
  have hfound : ∀ f ∈ start.fields, (t.field? f.name).isSome := by
    intro f hf
    obtain ⟨g, hg, hname⟩ := List.mem_map.mp (hkeeps.names f hf)
    obtain ⟨g', hg', hname'⟩ := List.mem_map.mp (names_of_build hbuild g hg)
    rw [← hname, ← hname', hwell.byName g' hg']
    rfl
  refine ⟨hwell, hfound, ?_, ?_, ?_⟩
  · rintro name rfl
    exact hkind
  · rintro name rfl
    exact hkind
  · rintro name parent rfl
    exact ⟨hkind, hfound⟩

end Declaration

/-! ### Ferries -/

/-- The hull number of a vessel, which is its key. -/
def hullField (kind : Scalar) : Field :=
  { Field.ofKind "hull" (.scalar kind) with storageName := "h" }

/-- Vessels are known by their hull number. -/
def vesselDeclaration : Declaration :=
  ((((Declaration.document "Vessel").inCollection "vessels").withField
    (hullField .int)).withPrimaryKey "hull").inheritable

/-- The type of vessels. -/
def vesselType : DocumentType where
  name := "Vessel"
  className := "Vessel"
  collection := some "vessels"
  fields := [{ hullField .int with storageName := idKey }]
  primaryKey := some "hull"
  isDynamic := false
  allowsInheritance := true
  superclass := none

/-- Ferries have texts on their hull numbers, and a load. -/
def ferryDeclaration : Declaration :=
  ((Declaration.subtype "Ferry" vesselType).withField (hullField .string)).withField
    (.ofKind "load" (.scalar .int))

/-- The type of ferries. Their hull number has taken the place of the one of vessels. -/
def ferryType : DocumentType :=
  { vesselType with
    name := "Ferry"
    className := "Vessel.Ferry"
    fields := [{ hullField .string with storageName := idKey }, .ofKind "load" (.scalar .int)]
    superclass := some "Vessel" }

/-- A key that a subtype declares again is its key. -/
theorem build_wellFormed_ferry :
    vesselDeclaration.build = .ok vesselType ∧
      (Declaration.subtype "Ferry" vesselType).Calls ferryDeclaration ∧
      ferryDeclaration.build = .ok ferryType ∧ ferryType.WellFormed ∧ ferryType.isEmbedded = false ∧
      (ferryType.field? "hull").isSome := by
  have hcalls : (Declaration.subtype "Ferry" vesselType).Calls ferryDeclaration :=
    .tail (.single (.withField _ _)) (.withField _ _)
  have hbuild : ferryDeclaration.build = .ok ferryType := rfl
  obtain ⟨hwell, -, -, -, hsubtype⟩ := hcalls.build_wellFormed hbuild
  obtain ⟨hkind, hnames⟩ := hsubtype "Ferry" vesselType rfl
  exact ⟨rfl, hcalls, hbuild, hwell, hkind, hnames _ List.mem_cons_self⟩

end DocumentMapper
