import Mathlib.Logic.Relation
import DocumentMapper.Mapper.Selection
import DocumentMapper.Proofs.BuiltTypes
import DocumentMapper.Proofs.DottedPaths
import DocumentMapper.Proofs.EntriesLaws

/-!
# Hierarchies of registered types

Types refer to their parents by name and carry a class name, which is the path of names from the root
of their hierarchy. A catalog finds types under both. Whether a type descends from another is told by
their class names alone: one path has to begin with the other.

That this is the descent along registered parents takes a catalog in which the names of types have no
points and every parent is registered. What a catalog itself has to keep for it is kept by every
registration: a type is found under its name and under its class name.

## Main results

* `Catalog.Registered.kept`: a catalog finds its types under both of their names;
* `Catalog.Kept.descends_iff`: class names tell what descends from what;
* `Catalog.Kept.mem_classNames_iff`: the classes that a selection asks for are those of the descendants.
-/

namespace DocumentMapper

open Text

/-! ### Registered types -/

/-- What declaring a type guarantees: it is built, a root has its name as class name, and a subtype
has the class name of its parent in front of its own name. The name has no point. -/
structure DocumentType.Declared (t : DocumentType) : Prop where
  built : t.Built
  isSegment : IsSegment t.name
  className : (t.superclass = none ∧ t.className = t.name) ∨ ∃ parent : DocumentType,
    t.superclass = some parent.name ∧ t.className = parent.className ++ "." ++ t.name

mutual

/-- Whether a type and all types that are embedded in it are declared. -/
def DocumentType.AllDeclared : DocumentType → Prop
  | ⟨name, className, collection, fields, primaryKey, isDynamic, inheritance, superclass⟩ =>
    DocumentType.Declared
        ⟨name, className, collection, fields, primaryKey, isDynamic, inheritance, superclass⟩ ∧
      fieldsDeclared fields
termination_by structural t => t

/-- Whether all types that are embedded in some fields are declared. -/
def fieldsDeclared : List Field → Prop
  | [] => True
  | f :: fs => f.TypesDeclared ∧ fieldsDeclared fs
termination_by structural fs => fs

/-- Whether all types that are embedded in a field are declared. -/
def Field.TypesDeclared : Field → Prop
  | ⟨_, _, _, kind, _, _⟩ => kind.TypesDeclared
termination_by structural f => f

/-- Whether all types that a kind embeds are declared. -/
def Kind.TypesDeclared : Kind → Prop
  | .embedded t => t.AllDeclared
  | .list element => element.TypesDeclared
  | .dict element => element.TypesDeclared
  | _ => True
termination_by structural k => k

end

namespace Catalog

variable {c c' : Catalog} {t s d : DocumentType} {name : String}

/-- The catalogs that come from registering declared types. -/
inductive Registered : Catalog → Prop where
  | empty : Registered .empty
  | register {c c' : Catalog} {t : DocumentType} (hc : Registered c) (ht : t.AllDeclared)
      (h : c.register t = .ok c') : Registered c'

/-- A catalog finds its types under their names and under their class names. -/
structure Kept (c : Catalog) : Prop where
  named : ∀ {name t}, c.get? name = some t → t.name = name
  declared : ∀ {name t}, c.get? name = some t → t.Declared
  classed : ∀ {name t}, c.get? name = some t → c.classes.get? t.className = some name

end Catalog

namespace DocumentType.Declared

variable {t u : DocumentType}

/-- The last part of a class name is the name. -/
theorem segments_className (h : t.Declared) :
    ∃ front, dottedSegments t.className = front ++ [t.name] := by
  rcases h.className with ⟨-, hname⟩ | ⟨parent, -, hname⟩
  · exact ⟨[], by rw [hname, dottedSegments_of_isSegment h.isSegment]; rfl⟩
  · exact ⟨dottedSegments parent.className, by rw [hname, dottedSegments_below _ h.isSegment]⟩

/-- Types of one class name have one name. -/
theorem name_eq (ht : t.Declared) (hu : u.Declared) (h : t.className = u.className) :
    t.name = u.name := by
  obtain ⟨front, hfront⟩ := ht.segments_className
  obtain ⟨front', hfront'⟩ := hu.segments_className
  rw [h, hfront'] at hfront
  exact (List.singleton_inj.mp (List.append_inj' hfront rfl).2).symm

end DocumentType.Declared

namespace Catalog

variable {c c' : Catalog} {t s d : DocumentType} {name : String}

theorem kept_empty : Catalog.empty.Kept :=
  ⟨nofun, nofun, nofun⟩

/-- A declared type that comes in takes no class name of another type. -/
theorem Kept.add (h : c.Kept) (ht : t.Declared) : (c.add t).Kept := by
  have hget : ∀ {name u}, (c.add t).get? name = some u →
      (t.name = name ∧ t = u) ∨ (t.name ≠ name ∧ c.get? name = some u) := by
    intro name u hu
    rw [Catalog.get?, Catalog.add, Entries.get?_insert] at hu
    split at hu
    · exact .inl ⟨‹_›, Option.some.inj hu⟩
    · exact .inr ⟨‹_›, hu⟩
  refine ⟨fun {name u} hu => ?_, fun {name u} hu => ?_, fun {name u} hu => ?_⟩
  · rcases hget hu with ⟨hname, rfl⟩ | ⟨-, hu⟩
    · exact hname
    · exact h.named hu
  · rcases hget hu with ⟨-, rfl⟩ | ⟨-, hu⟩
    · exact ht
    · exact h.declared hu
  · rw [Catalog.add, Entries.get?_insert]
    rcases hget hu with ⟨rfl, rfl⟩ | ⟨hne, hu⟩
    · exact if_pos rfl
    · rw [if_neg fun heq => hne ((ht.name_eq (h.declared hu) heq).trans (h.named hu))]
      exact h.classed hu

end Catalog

mutual

/-- Registering a type with what it embeds keeps a catalog. -/
theorem DocumentType.kept_enroll : ∀ (t : DocumentType) {c : Catalog}, c.Kept → t.AllDeclared →
    (t.enroll c).Kept
  | ⟨name, className, collection, fields, primaryKey, isDynamic, inheritance, superclass⟩, c, hc,
      ht => by
    simp only [DocumentType.AllDeclared] at ht
    simp only [DocumentType.enroll]
    exact (kept_enrollFields fields hc ht.2).add ht.1
termination_by structural t => t

/-- The same for the types that some fields embed. -/
theorem kept_enrollFields : ∀ (fs : List Field) {c : Catalog}, c.Kept → fieldsDeclared fs →
    (enrollFields fs c).Kept
  | [], c, hc, _ => hc
  | f :: fs, c, hc, hfs => by
    simp only [fieldsDeclared] at hfs
    exact kept_enrollFields fs (f.kept_enroll hc hfs.1) hfs.2
termination_by structural fs => fs

/-- The same for the types that a field embeds. -/
theorem Field.kept_enroll : ∀ (f : Field) {c : Catalog}, c.Kept → f.TypesDeclared →
    (f.enroll c).Kept
  | ⟨_, _, _, kind, _, _⟩, c, hc, hf => by
    simp only [Field.TypesDeclared] at hf
    exact kind.kept_enroll hc hf
termination_by structural f => f

/-- The same for the types that a kind embeds. -/
theorem Kind.kept_enroll : ∀ (k : Kind) {c : Catalog}, c.Kept → k.TypesDeclared → (k.enroll c).Kept
  | .embedded t, c, hc, hk => by
    simp only [Kind.TypesDeclared] at hk
    have ht := t.kept_enroll hc hk
    simp only [Kind.enroll]
    split
    · exact hc
    · exact ht
  | .list element, c, hc, hk => by
    simp only [Kind.TypesDeclared] at hk
    exact element.kept_enroll hc hk
  | .dict element, c, hc, hk => by
    simp only [Kind.TypesDeclared] at hk
    exact element.kept_enroll hc hk
  | .scalar _, c, hc, _ => hc
  | .reference _, c, hc, _ => hc
  | .genericReference, c, hc, _ => hc
termination_by structural k => k

end

namespace Catalog

variable {c c' : Catalog} {t s d : DocumentType} {name : String}

/-- **Registering types keeps every one of them under its names.** -/
theorem Registered.kept (h : c.Registered) : c.Kept := by
  induction h with
  | empty => exact kept_empty
  | register hc ht hregister ih =>
    unfold Catalog.register at hregister
    split at hregister
    · cases hregister
    · obtain rfl := Except.ok.inj hregister
      exact DocumentType.kept_enroll _ ih ht

/-! ### Descent -/

/-- Whether `s` is the registered parent of `t`. -/
def IsChildOf (c : Catalog) (t s : DocumentType) : Prop :=
  t.superclass = some s.name ∧ c.get? s.name = some s

/-- Whether `t` is `s` or descends from it along registered parents. -/
def Descends (c : Catalog) : DocumentType → DocumentType → Prop :=
  Relation.ReflTransGen c.IsChildOf

/-- Whether every subtype has a registered parent: the one with its class name in front, and with its
collection. -/
def KeepsParents (c : Catalog) : Prop :=
  ∀ name t, c.get? name = some t → ∀ p, t.superclass = some p → ∃ parent, c.get? p = some parent ∧
    t.className = parent.className ++ "." ++ t.name ∧ t.collection = parent.collection

/-- A type has the class name of its registered parent in front, and its collection. -/
theorem KeepsParents.parent (hparents : c.KeepsParents) (ht : c.get? t.name = some t)
    (hts : c.IsChildOf t s) :
    t.className = s.className ++ "." ++ t.name ∧ t.collection = s.collection := by
  obtain ⟨parent, hget, hclass, hcollection⟩ := hparents t.name t ht s.name hts.1
  obtain rfl := Option.some.inj (hget.symm.trans hts.2)
  exact ⟨hclass, hcollection⟩

/-- **A hierarchy is stored in one collection.** -/
theorem KeepsParents.collection_of_descends (hparents : c.KeepsParents)
    (ht : c.get? t.name = some t) (hts : c.Descends t s) : t.collection = s.collection := by
  induction hts using Relation.ReflTransGen.head_induction_on with
  | refl => rfl
  | head hchild _ ih => exact (hparents.parent ht hchild).2.trans (ih hchild.2)

theorem KeepsParents.prefix_of_descends (hparents : c.KeepsParents)
    (ht : c.get? t.name = some t) (hts : c.Descends t s) :
    dottedSegments s.className <+: dottedSegments t.className := by
  induction hts using Relation.ReflTransGen.head_induction_on with
  | refl => exact List.prefix_refl _
  | head hchild _ ih =>
    refine (ih hchild.2).trans ?_
    rw [(hparents.parent ht hchild).1, dottedSegments_append]
    exact List.prefix_append _ _

namespace Kept

variable (h : c.Kept)

include h

/-- A registered type is found under its class name. -/
theorem byClassName? (ht : c.get? name = some t) : c.byClassName? t.className = some t := by
  rw [Catalog.byClassName?, h.classed ht, Option.bind_some, ht]
  rfl

/-- Registered types of one class name are the same. -/
theorem eq_of_className (ht : c.get? t.name = some t) (hs : c.get? s.name = some s)
    (hname : t.className = s.className) : t = s := by
  have hsame := h.byClassName? ht
  rw [hname, h.byClassName? hs] at hsame
  exact (Option.some.inj hsame).symm

/-- Going up from a type whose class name begins with another one leads to the type of that name. -/
theorem descends_of_prefix (hparents : c.KeepsParents) (ht : c.get? t.name = some t)
    (hs : c.get? s.name = some s)
    (hbegins : dottedSegments s.className <+: dottedSegments t.className) : c.Descends t s := by
  induction hlength : (dottedSegments t.className).length generalizing t with
  | zero => exact absurd (List.length_eq_zero_iff.mp hlength) (dottedSegments_ne_nil _)
  | succ n ih =>
    have hdeclared := h.declared ht
    obtain ⟨front, hfront⟩ := hdeclared.segments_className
    rw [hfront] at hbegins hlength
    rcases List.prefix_concat_iff.mp hbegins with heq | habove
    · rw [h.eq_of_className ht hs (dottedSegments_injective (hfront.trans heq.symm))]
      exact .refl
    cases hsuper : t.superclass with
    | none =>
      have hroot : t.className = t.name := by
        rcases hdeclared.className with ⟨-, hname⟩ | ⟨parent, hparent, -⟩
        · exact hname
        · rw [hsuper] at hparent
          cases hparent
      rw [hroot, dottedSegments_of_isSegment hdeclared.isSegment] at hfront
      obtain rfl : front = [] := by simpa using hfront.symm
      exact absurd (List.prefix_nil.mp habove) (dottedSegments_ne_nil _)
    | some p =>
      obtain ⟨parent, hget, hclass, -⟩ := hparents t.name t ht p hsuper
      obtain rfl := h.named hget
      rw [hclass, dottedSegments_below _ hdeclared.isSegment] at hfront
      obtain rfl := (List.append_inj' hfront rfl).1
      exact .head ⟨hsuper, hget⟩ (ih hget habove (by simpa using hlength))

/-- **The class names of registered types tell what descends from what.** -/
theorem descends_iff (hparents : c.KeepsParents) (ht : c.get? t.name = some t)
    (hs : c.get? s.name = some s) : c.Descends t s ↔ t.isSubtypeOf s = true := by
  have hsubtype : t.isSubtypeOf s = true ↔
      dottedSegments s.className <+: dottedSegments t.className := by
    rw [DocumentType.isSubtypeOf, BEq.comm, eq_or_isAbove_iff]
  rw [hsubtype]
  exact ⟨hparents.prefix_of_descends ht, h.descends_of_prefix hparents ht hs⟩

end Kept

/-! ### The classes that a selection asks for -/

/-- **The classes of a selection are those of the registered descendants.** -/
theorem mem_classNames_iff (hd : c.get? name = some d) :
    d.className ∈ Selection.classNames c s ↔ d.isSubtypeOf s = true := by
  have hbelow : ∀ u, u ∈ c.subtypesOf s ↔
      u ∈ c.types.map Prod.snd ∧ u.className ≠ s.className ∧ u.isSubtypeOf s = true := by
    intro u
    rw [subtypesOf, (stableSort_perm _ _).mem_iff, List.mem_filter, Bool.and_eq_true, bne_iff_ne]
  rw [Selection.classNames, List.mem_cons]
  constructor
  · rintro (hsame | hmem)
    · simp [DocumentType.isSubtypeOf, hsame]
    · obtain ⟨u, hu, hclass⟩ := List.mem_map.mp hmem
      have hsubtype := ((hbelow u).mp hu).2.2
      rwa [DocumentType.isSubtypeOf, hclass] at hsubtype
  · intro hsubtype
    by_cases hsame : d.className = s.className
    · exact .inl hsame
    · refine .inr (List.mem_map_of_mem ((hbelow d).mpr ⟨?_, hsame, hsubtype⟩))
      exact List.mem_map_of_mem (f := Prod.snd) (Entries.mem_of_get? hd)

end Catalog

end DocumentMapper
