import DocumentMapper.Proofs.LinkedDocuments

/-!
# References resolved together

References that are resolved together are looked up collection by collection, and what is found in a
collection is read as what the first reference into it expects. So a reference can lead to another
document than it leads to alone: one that is read as another type, or one at all where it could not
be located alone.

## Main results

* `resolveValues_references`: what resolving a list of references with one hop comes to;
* `resolveValues_pointwise_iff`: it comes to the same as resolving them one by one exactly if every
  reference that shares the target of a located one is located too and selects the same type as the
  first reference into its collection.
-/

namespace DocumentMapper

/-! ### Computations one after the other -/

section

variable {ε α β γ : Type} {f : α → Except ε β}

/-- Results that do not depend on what was computed are put together at the end. -/
theorem mapM_map_const (g : α → γ) (xs : List α) :
    (xs.mapM fun x => (f x).map fun _ => g x) = (xs.mapM f).map fun _ => xs.map g := by
  induction xs with
  | nil => rfl
  | cons x xs ih =>
    rw [List.mapM_cons, List.mapM_cons, ih]
    cases f x with
    | error cause => rfl
    | ok y => cases xs.mapM f <;> rfl

/-- A computation over a list fails exactly when it fails at an element. -/
theorem mapM_eq_error_iff {xs : List α} :
    (∃ cause, xs.mapM f = .error cause) ↔ ∃ x ∈ xs, ∃ cause, f x = .error cause := by
  induction xs with
  | nil => simp [pure, Except.pure]
  | cons x xs ih =>
    rw [List.mapM_cons]
    cases hx : f x with
    | error cause => simp [bind, Except.bind, hx]
    | ok y =>
      have hrest : (∃ z ∈ x :: xs, ∃ cause, f z = .error cause) ↔
          ∃ z ∈ xs, ∃ cause, f z = .error cause := by
        simp [hx]
      rw [hrest, ← ih]
      cases xs.mapM f <;> simp [bind, Except.bind, pure, Except.pure]

end

/-! ### One hop -/

/-- The type that a reference expects in a collection. -/
def Catalog.expects? (c : Catalog) (collection : String) (r : Reference) : Option DocumentType :=
  (c.target? r).bind fun target => if target.1.1 = collection then some target.2 else none

/-- The document that some references give to a key: its record, read as what the first reference
into the collection expects, if one of them leads to the key. -/
def batchedDoc (c : Catalog) (store : Store) (references : List Reference) (key : ObjectKey) :
    Option Document :=
  if ∃ r ∈ references, c.locatedKey? r = some key then
    (references.findSome? (c.expects? key.1)).bind fun declared =>
      (store.recordAt? key).map fun raw => Document.ofStorage c (c.concreteType declared raw) raw
  else none

theorem referencesOfItems_map (references : List Reference) :
    referencesOfItems (references.map Value.reference) = references := by
  induction references with
  | nil => rfl
  | cons r rest ih =>
    simp only [List.map_cons, referencesOfItems, Value.references, ih]
    rfl

section

variable {c : Catalog} {store : Store} {references : List Reference} {key : ObjectKey}

/-- Where nothing was asked for before, every reference counts. -/
theorem expected?_empty (collection : String) :
    Resolution.empty.expected? c collection = c.expects? collection := by
  funext r
  unfold Resolution.expected? Catalog.expects?
  cases c.target? r with
  | none => rfl
  | some target => simp [Resolution.empty]

/-- One round fetches what the references give. -/
theorem fetched?_foldl :
    Resolution.fetched? c (references.foldl (Resolution.empty.want c) []) store key =
      batchedDoc c store references key := by
  have hdeclared := @Resolution.declared_foldl c Resolution.empty [] references key.1
  rw [Entries.get?_nil, Option.map_none, Option.none_or, expected?_empty] at hdeclared
  have hwants : Resolution.Wants (references.foldl (Resolution.empty.want c) []) key ↔
      ∃ r ∈ references, c.locatedKey? r = some key := by
    rw [Resolution.wants_foldl, or_iff_right (Resolution.not_wants_nil key)]
    exact and_iff_right List.not_mem_nil
  unfold Resolution.fetched? batchedDoc
  rw [← hdeclared]
  by_cases hled : ∃ r ∈ references, c.locatedKey? r = some key
  · obtain ⟨w, hw, hids⟩ := hwants.mpr hled
    rw [hw, if_pos hled, Option.bind_some, if_pos hids]
    rfl
  · rw [if_neg hled]
    cases hw : (references.foldl (Resolution.empty.want c) []).get? key.1 with
    | none => rfl
    | some w => exact if_neg fun hids => hled (hwants.mp ⟨w, hw, hids⟩)

/-- The only round finds what is wanted. -/
theorem rounds_one (c : Catalog) (store : Store) {wanted : Entries Wanted}
    (hwanted : (wanted.map Prod.fst).Nodup) :
    ∃ state, (Resolution.rounds c 1 wanted .empty store).1 = .ok state ∧
      ∀ key, state.found.lookup key =
        (Resolution.fetched? c wanted store key).map fun doc => ⟨doc, 0⟩ := by
  cases hempty : wanted.isEmpty with
  | true =>
    obtain rfl := List.isEmpty_iff.mp hempty
    exact ⟨.empty, rfl, fun _ => rfl⟩
  | false =>
    refine ⟨(Resolution.fetchAll c 0 wanted .empty store).2.1, ?_, fun key => ?_⟩
    · simp [Resolution.rounds, hempty]
    · obtain ⟨-, hlookup, -⟩ := Resolution.lookup_fetchAll c 0 hwanted .empty store key
      rw [hlookup]
      exact Option.or_none

/-- At the end the documents that were found with the last hop are shown as they are. -/
theorem shown_of_last {state : Resolution} {final : Linking} {f : ObjectKey → Option Document}
    (hfound : ∀ key, state.found.lookup key = (f key).map fun doc => ⟨doc, 0⟩)
    (hlinks : Linking.Links c state.found [] references ⟨state.found, []⟩ final) :
    AgreeOn c final.shown f references := by
  intro r hr key hkey
  cases hdoc : f key with
  | none =>
    have hnone : state.found.lookup key = none := by rw [hfound, hdoc, Option.map_none]
    exact hlinks.valid.shown_of_not_fetched hnone
  | some doc =>
    have hfetched : state.found.lookup key = some ⟨doc, 0⟩ := by rw [hfound, hdoc, Option.map_some]
    rcases hlinks.valid.fetched key (by rw [hfetched]; rfl) with hleft | hstack | hshown
    · rw [hlinks.taken r hr key hkey] at hleft
      cases hleft
    · exact absurd hstack List.not_mem_nil
    · obtain ⟨shown, hshown⟩ := Option.isSome_iff_exists.mp hshown
      obtain ⟨g, hg, hcompleted⟩ := hlinks.valid.completed key shown hshown
      obtain rfl := Option.some.inj (hfetched.symm.trans hg)
      cases hcompleted with
      | last _ => exact hshown
      | further hfurther => exact absurd rfl hfurther

/-- **Resolving references with one hop replaces each by the document that they give to its key**,
unless one of them has a type that is not registered. -/
theorem resolveValues_references (c : Catalog) (store : Store) (references : List Reference) :
    (resolveValues c 1 (references.map .reference) store).1 =
      (references.mapM c.locate).map fun _ =>
        references.map fun r =>
          (Value.reference r).linkedBy c (batchedDoc c store references) := by
  unfold resolveValues Resolution.fetchFrom
  rw [if_neg (by decide), referencesOfItems_map, Resolution.gather_eq]
  cases references.mapM c.locate with
  | error cause => rfl
  | ok targets =>
    have hsorted : (references.foldl (Resolution.empty.want c) []).Sorted :=
      Resolution.sorted_foldl Entries.sorted_nil
    obtain ⟨state, hstate, hfound⟩ := rounds_one c store hsorted.nodup
    obtain ⟨final, hlinks, hvalues⟩ := state.attachAll_items c (references.map .reference)
    rw [referencesOfItems_map] at hlinks
    simp only [fetched?_foldl] at hfound
    have hagree := shown_of_last hfound hlinks
    rcases hrounds : Resolution.rounds c 1 (references.foldl (Resolution.empty.want c) []) .empty
      store with ⟨result, fetched⟩
    rw [hrounds] at hstate
    obtain rfl : result = .ok state := hstate
    simp only [Except.map, hrounds, hvalues]
    have hsame : linkedItems c final.shown (references.map .reference) =
        linkedItems c (batchedDoc c store references) (references.map .reference) :=
      linkedItems_congr _ (by rw [referencesOfItems_map]; exact hagree)
    rw [hsame, linkedItems_eq_map, List.map_map]
    rfl

/-! ### Resolving one by one -/

/-- Two ways to find documents do the same for a reference exactly when they agree on its target. -/
theorem linkedBy_reference_eq_iff {f g : ObjectKey → Option Document} {r : Reference} :
    (Value.reference r).linkedBy c f = (Value.reference r).linkedBy c g ↔
      ∀ key, c.objectKey? r = some key → f key = g key := by
  unfold Value.linkedBy
  cases c.objectKey? r with
  | none => simp
  | some key =>
    simp only [Option.bind_some, Option.some.injEq, forall_eq']
    cases f key <;> cases g key <;> simp

/-- What resolving references one by one comes to. -/
theorem mapM_resolveValues (c : Catalog) (store : Store) (references : List Reference) :
    (references.mapM fun r => (resolveValues c 1 [.reference r] store).1).map List.flatten =
      (references.mapM c.locate).map fun _ =>
        references.map fun r => (Value.reference r).linkedBy c (batchedDoc c store [r]) := by
  have halone : ∀ r, (resolveValues c 1 [.reference r] store).1 =
      (c.locate r).map fun _ => [(Value.reference r).linkedBy c (batchedDoc c store [r])] := by
    intro r
    refine (resolveValues_references c store [r]).trans ?_
    rw [List.mapM_cons]
    cases c.locate r <;> rfl
  simp only [halone, mapM_map_const]
  cases references.mapM c.locate with
  | error cause => rfl
  | ok targets =>
    refine congrArg Except.ok ?_
    rw [← List.flatMap_def, ← List.map_eq_flatMap]

/-- References that share the target of a located one are located too, and select the type that the
first reference into their collection selects. -/
def SelectAlike (c : Catalog) (store : Store) (references : List Reference) : Prop :=
  ∀ r ∈ references, ∀ key, c.objectKey? r = some key →
    (∃ r' ∈ references, c.locatedKey? r' = some key) →
    ∀ raw, store.recordAt? key = some raw →
      ∃ own first, c.target? r = some (key, own) ∧
        references.findSome? (c.expects? key.1) = some first ∧
        c.concreteType first raw = c.concreteType own raw

/-- Alone, a reference gives what it leads to read as what it expects. -/
theorem batchedDoc_singleton {r : Reference} :
    batchedDoc c store [r] key =
      (c.target? r).bind fun target =>
        if target.1 = key then
          (store.recordAt? key).map fun raw =>
            Document.ofStorage c (c.concreteType target.2 raw) raw
        else none := by
  unfold batchedDoc Catalog.locatedKey? Catalog.expects?
  cases htarget : c.target? r with
  | none => simp [htarget]
  | some target =>
    obtain ⟨place, own⟩ := target
    by_cases hkey : place = key
    · subst hkey
      simp [htarget]
    · simp [htarget, hkey]

/-- A located reference is the first into its collection, or another one is. -/
theorem exists_first (h : ∃ r ∈ references, c.locatedKey? r = some key) :
    ∃ first, references.findSome? (c.expects? key.1) = some first := by
  obtain ⟨r, hr, hkey⟩ := h
  obtain ⟨target, htarget, rfl⟩ := Option.map_eq_some_iff.mp hkey
  refine Option.isSome_iff_exists.mp (List.findSome?_isSome_iff.mpr ⟨r, hr, ?_⟩)
  simp [Catalog.expects?, htarget]

/-- A reference gets the same document with others as alone exactly if its target is not located,
has no record, or is selected alike. -/
theorem batchedDoc_eq_iff {r : Reference} (hr : r ∈ references) (hkey : c.objectKey? r = some key) :
    batchedDoc c store references key = batchedDoc c store [r] key ↔
      ((∃ r' ∈ references, c.locatedKey? r' = some key) →
        ∀ raw, store.recordAt? key = some raw →
          ∃ own first, c.target? r = some (key, own) ∧
            references.findSome? (c.expects? key.1) = some first ∧
            c.concreteType first raw = c.concreteType own raw) := by
  by_cases hled : ∃ r' ∈ references, c.locatedKey? r' = some key
  · obtain ⟨first, hfirst⟩ := exists_first hled
    have hbatch : batchedDoc c store references key = (store.recordAt? key).map fun raw =>
        Document.ofStorage c (c.concreteType first raw) raw := by
      rw [batchedDoc, if_pos hled, hfirst, Option.bind_some]
    rw [hbatch, batchedDoc_singleton, hfirst]
    cases htarget : c.target? r with
    | none => cases store.recordAt? key <;> simp [hled]
    | some target =>
      obtain ⟨place, own⟩ := target
      have hplace : place = key := by
        have hlocated : c.locatedKey? r = some place := by rw [Catalog.locatedKey?, htarget]; rfl
        exact Option.some.inj ((Catalog.objectKey?_of_locatedKey? hlocated).symm.trans hkey)
      subst hplace
      cases store.recordAt? place with
      | none => simp
      | some raw =>
        have hsame : Document.ofStorage c (c.concreteType first raw) raw =
            Document.ofStorage c (c.concreteType own raw) raw ↔
            c.concreteType first raw = c.concreteType own raw :=
          ⟨fun h => congrArg Document.type h, fun h => by rw [h]⟩
        simp [hled, hsame]
  · have halone : ¬ ∃ r' ∈ [r], c.locatedKey? r' = some key := fun ⟨r', hr', hlocated⟩ =>
      hled ⟨r, hr, List.mem_singleton.mp hr' ▸ hlocated⟩
    rw [batchedDoc, batchedDoc, if_neg hled, if_neg halone]
    exact iff_of_true rfl fun h => absurd h hled

/-- **Resolving references together gives each what it is given alone exactly if they select
alike**, or if one of them has a type that is not registered and both ways end with the same error. -/
theorem resolveValues_pointwise_iff (c : Catalog) (store : Store) (references : List Reference) :
    (resolveValues c 1 (references.map .reference) store).1 =
        (references.mapM fun r => (resolveValues c 1 [.reference r] store).1).map List.flatten ↔
      (∃ r ∈ references, ∃ cause, c.locate r = .error cause) ∨
        SelectAlike c store references := by
  rw [mapM_resolveValues, resolveValues_references, ← mapM_eq_error_iff]
  cases references.mapM c.locate with
  | error cause => exact iff_of_true rfl (.inl ⟨cause, rfl⟩)
  | ok targets =>
    simp only [Except.map, Except.ok.injEq, List.map_inj_left, linkedBy_reference_eq_iff,
      reduceCtorEq, exists_false, false_or]
    exact forall₂_congr fun r hr => forall₂_congr fun key hkey => batchedDoc_eq_iff hr hkey

end

/-! ### Dogs and cats -/

/-- A kind of animals, which has a name and a sound of its own. -/
def petType (name sound : String) : DocumentType where
  name := name
  className := "Animal." ++ name
  collection := some "animals"
  fields := [{ Field.ofKind "id" (.scalar .objectId) with storageName := idKey },
    .ofKind "name" (.scalar .string), .ofKind sound (.scalar .string)]
  primaryKey := some "id"
  isDynamic := false
  allowsInheritance := true
  superclass := some "Animal"

/-- Dogs and cats are stored in one collection. -/
def petCatalog : Catalog :=
  (Catalog.empty.add (petType "Dog" "bark")).add (petType "Cat" "meow")

def dogRecord : Object :=
  [("_id", .ofInt64 1), ("_cls", .string "Animal.Dog"), ("name", .string "rex"),
    ("bark", .string "woof")]

def catRecord : Object :=
  [("_id", .ofInt64 2), ("_cls", .string "Animal.Cat"), ("name", .string "tom"),
    ("meow", .string "purr")]

def petStore : Store :=
  (Store.insert "animals" [dogRecord, catRecord] .empty).2

def dogReference : Value :=
  .reference ⟨.type "Dog", .ofInt64 1⟩

def catReference : Value :=
  .reference ⟨.type "Cat", .ofInt64 2⟩

def loadedDog : Document :=
  ⟨petType "Dog" "bark", [("bark", .string "woof"), ("id", .int 1), ("name", .string "rex")],
    .empty, some dogRecord⟩

/-- Behind a dog a cat is read as a dog and loses its sound. -/
theorem cat_behind_dog :
    (resolveValues petCatalog 1 [dogReference, catReference] petStore).1 =
        .ok [.linked loadedDog, .linked ⟨petType "Dog" "bark",
          [("id", .int 2), ("name", .string "tom")], .empty, some catRecord⟩] ∧
      (resolveValues petCatalog 1 [catReference] petStore).1 =
        .ok [.linked ⟨petType "Cat" "meow",
          [("id", .int 2), ("meow", .string "purr"), ("name", .string "tom")], .empty,
          some catRecord⟩] ∧
      petType "Dog" "bark" ≠ petType "Cat" "meow" :=
  ⟨rfl, rfl, fun h => absurd (congrArg DocumentType.name h) (by decide)⟩

end DocumentMapper
