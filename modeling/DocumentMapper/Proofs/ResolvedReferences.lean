import DocumentMapper.Proofs.FetchRounds
import DocumentMapper.Proofs.LinkedDocuments

/-!
# What resolving references does to values

Fetching goes breadth first and linking depth first. They meet in the level of a document: the least
number of hops by which references that can be located lead to it. A document is read if it is
stored and its level is within the number of hops, and every document that was read is shown
wherever a reference leads to it, except where a reference leads back to a document that leads to
it. In a document at the last level nothing is replaced.

## Main results

* `ResolvesTo` says what a resolution has read and what it shows;
* `resolveValues_resolvesTo`: resolving the references of some values replaces them in this way and
  changes nothing else.
-/

namespace DocumentMapper

open Relation

/-- What a resolution within some hops does for the references of some values: the documents that
are read for them, and the documents that are shown in place of references. -/
structure ResolvesTo (c : Catalog) (store : Store) (hops : Nat) (start : List Reference)
    (read shown : ObjectKey → Option Document) : Prop where
  /-- Exactly what is stored within the hops is read. -/
  read_isSome : ∀ key, (read key).isSome ↔
    (∃ n ≤ hops, Hops c read start n key) ∧ (store.recordAt? key).isSome
  readAs : ∀ key doc, read key = some doc → IsReadAs c store read start key doc
  /-- Exactly what is read is shown. -/
  shown_isSome : ∀ key, (shown key).isSome ↔ (read key).isSome
  /-- A document at the last level is shown as it was read. -/
  last : ∀ key doc, read key = some doc → Level c read start hops key → shown key = some doc
  /-- In a document at a lower level references are replaced, except some to documents that lead to
  it, which close a cycle. -/
  further : ∀ key doc n, read key = some doc → Level c read start n key → n < hops →
    ∃ skipped : List ObjectKey, (∀ k ∈ skipped, ReflTransGen (Leads c read) k key) ∧
      shown key = some (doc.linkedBy c fun k => if k ∈ skipped then none else shown k)

section

variable {c : Catalog} {store : Store} {start : List Reference} {hops : Nat} {state : Resolution}
  {final : Linking}

/-- Everything within the hops is taken out when the given references are linked: each document on
the way is at a lower level, so its references are linked too. -/
theorem taken_of_hops (hsearched : Resolution.Searched c store start hops hops state)
    (hlinks : Linking.Links c state.found [] start ⟨state.found, []⟩ final) {n : Nat}
    {key : ObjectKey} (hhop : Hops c state.read start n key) (hn : n ≤ hops) : final.found.lookup key = none := by
  induction hhop with
  | first hr hkey => exact hlinks.taken _ hr _ (Catalog.objectKey?_of_locatedKey? hkey)
  | @next n before key doc r hbefore hdoc hr hkey ih =>
    obtain ⟨f, hf, rfl⟩ := Option.map_eq_some_iff.mp hdoc
    have hshown : (final.shown before).isSome := by
      rcases hlinks.valid.fetched before (by rw [hf]; rfl) with hfound | hstack | hshown
      · rw [ih (by omega)] at hfound
        cases hfound
      · exact absurd hstack List.not_mem_nil
      · exact hshown
    obtain ⟨doc, hdoc⟩ := Option.isSome_iff_exists.mp hshown
    obtain ⟨g, hg, hcompleted⟩ := hlinks.valid.completed before doc hdoc
    obtain rfl : f = g := Option.some.inj (hf.symm.trans hg)
    obtain ⟨m, hm, hleft⟩ := hsearched.atLevel before f hf
    have hle : m ≤ n := by
      by_contra hgt
      exact hm.2 n (by omega) hbefore
    cases hcompleted with
    | last hlast => omega
    | further hfurther skipped hback htaken hshown =>
      exact htaken r hr key (Catalog.objectKey?_of_locatedKey? hkey)

/-- What was found is shown in the end. -/
theorem resolvesTo_of_links (hsearched : Resolution.Searched c store start hops hops state)
    (hlinks : Linking.Links c state.found [] start ⟨state.found, []⟩ final) :
    ResolvesTo c store hops start state.read final.shown := by
  have hshown : ∀ key f, state.found.lookup key = some f →
      ∃ doc, final.shown key = some doc ∧ Linking.Completed c state.found final key f doc := by
    intro key f hf
    obtain ⟨n, hn, hhop⟩ :=
      (hsearched.requested key).mp ((hsearched.found key).mp (by rw [hf]; rfl)).1
    rcases hlinks.valid.fetched key (by rw [hf]; rfl) with hleft | hstack | hshown
    · rw [taken_of_hops hsearched hlinks hhop hn] at hleft
      cases hleft
    · exact absurd hstack List.not_mem_nil
    · obtain ⟨doc, hdoc⟩ := Option.isSome_iff_exists.mp hshown
      obtain ⟨g, hg, hcompleted⟩ := hlinks.valid.completed key doc hdoc
      obtain rfl : f = g := Option.some.inj (hf.symm.trans hg)
      exact ⟨doc, hdoc, hcompleted⟩
  constructor
  · intro key
    rw [Resolution.read, Option.isSome_map, hsearched.found key, hsearched.requested key]
  · intro key doc hdoc
    obtain ⟨f, hf, rfl⟩ := Option.map_eq_some_iff.mp hdoc
    exact hsearched.readAs key f hf
  · intro key
    rw [Resolution.read, Option.isSome_map]
    refine ⟨fun h => ?_, fun h => ?_⟩
    · obtain ⟨doc, hdoc⟩ := Option.isSome_iff_exists.mp h
      obtain ⟨f, hf, -⟩ := hlinks.valid.completed key doc hdoc
      rw [hf]
      rfl
    · obtain ⟨f, hf⟩ := Option.isSome_iff_exists.mp h
      obtain ⟨doc, hdoc, -⟩ := hshown key f hf
      rw [hdoc]
      rfl
  · intro key doc hdoc hlevel
    obtain ⟨f, hf, rfl⟩ := Option.map_eq_some_iff.mp hdoc
    obtain ⟨doc, hdoc, hcompleted⟩ := hshown key f hf
    obtain ⟨n, hn, hleft⟩ := hsearched.atLevel key f hf
    have hsame := hn.unique hlevel
    cases hcompleted with
    | last hlast => exact hdoc
    | further hfurther => omega
  · intro key doc n hdoc hlevel hn
    obtain ⟨f, hf, rfl⟩ := Option.map_eq_some_iff.mp hdoc
    obtain ⟨doc, hdoc, hcompleted⟩ := hshown key f hf
    obtain ⟨m, hm, hleft⟩ := hsearched.atLevel key f hf
    have hsame := hm.unique hlevel
    cases hcompleted with
    | last hlast => omega
    | further hfurther skipped hback => exact ⟨skipped, hback, hdoc⟩

end

/-- A resolution fetches what the references lead to and then links the values. -/
theorem resolveValues_eq_ok {c : Catalog} {hops : Nat} {values out : List Value} {store : Store}
    (hhops : 0 < hops) (h : (resolveValues c hops values store).1 = .ok out) :
    ∃ state final, (Resolution.fetchFrom c hops (referencesOfItems values) store).1 = .ok state ∧
      ResolvesTo c store hops (referencesOfItems values) state.read (Linking.shown final) ∧
      out = values.map (Value.linkedBy c final.shown) := by
  unfold resolveValues at h
  rw [if_neg (by omega)] at h
  rcases hfetch : Resolution.fetchFrom c hops (referencesOfItems values) store
    with ⟨result, fetched⟩
  simp only [hfetch] at h
  cases result with
  | error cause => cases h
  | ok state =>
    have hsearched := Resolution.searched_fetchFrom (congrArg Prod.fst hfetch)
    obtain ⟨final, hlinks, hvalues⟩ := state.attachAll_items c values
    refine ⟨state, final, rfl, resolvesTo_of_links hsearched hlinks, ?_⟩
    rw [← linkedItems_eq_map, ← hvalues]
    exact (Except.ok.inj h).symm

/-- **Resolving references puts the documents within the hops in their place and changes nothing
else.** -/
theorem resolveValues_resolvesTo {c : Catalog} {hops : Nat} {values out : List Value}
    {store : Store} (hhops : 0 < hops) (h : (resolveValues c hops values store).1 = .ok out) :
    ∃ read shown, ResolvesTo c store hops (referencesOfItems values) read shown ∧
      out = values.map (Value.linkedBy c shown) := by
  obtain ⟨state, final, -, hresolves, hout⟩ := resolveValues_eq_ok hhops h
  exact ⟨state.read, final.shown, hresolves, hout⟩

/-! ### Authors and their mentors -/

/-- Authors have mentors among the authors. -/
def pupilType : DocumentType where
  name := "Author"
  className := "Author"
  collection := some "authors"
  fields := [{ Field.ofKind "id" (.scalar .objectId) with storageName := idKey },
    .ofKind "mentor" (.reference "Author")]
  primaryKey := some "id"
  isDynamic := false
  allowsInheritance := false
  superclass := none

def pupilCatalog : Catalog :=
  Catalog.empty.add pupilType

/-- The record of an author. -/
def pupilRecord (id mentor : Int64) : Object :=
  [("_id", .ofInt64 id), ("mentor", .ofInt64 mentor)]

/-- A loaded author, with something in place of the mentor. -/
def loadedPupil (id mentor : Int64) (v : Value) : Document :=
  ⟨pupilType, [("id", .int id), ("mentor", v)], .empty, some (pupilRecord id mentor)⟩

/-- A reference to an author. -/
def pupilReference (id : Int64) : Value :=
  .reference ⟨.type "Author", .ofInt64 id⟩

/-- Two authors in a collection, who are mentors of each other. -/
def twoPupils (collection : String) : Store :=
  (Store.insert collection [pupilRecord 1 2, pupilRecord 2 1] .empty).2

/-- Within three hops the second author is shown in the first one, where the mentor stays a
reference. -/
theorem resolveValues_resolvesTo_twoPupils :
    0 < 3 ∧
      (resolveValues pupilCatalog 3 [pupilReference 1] (twoPupils "authors")).1 =
        .ok [.linked (loadedPupil 1 2 (.linked (loadedPupil 2 1 (pupilReference 1))))] ∧
      ∃ read shown, ResolvesTo pupilCatalog (twoPupils "authors") 3
        (referencesOfItems [pupilReference 1]) read shown ∧
        [.linked (loadedPupil 1 2 (.linked (loadedPupil 2 1 (pupilReference 1))))] =
          [pupilReference 1].map (Value.linkedBy pupilCatalog shown) := by
  have hrun : (resolveValues pupilCatalog 3 [pupilReference 1] (twoPupils "authors")).1 =
      .ok [.linked (loadedPupil 1 2 (.linked (loadedPupil 2 1 (pupilReference 1))))] := rfl
  exact ⟨by decide, hrun, resolveValues_resolvesTo (by decide) hrun⟩

/-- A reference into a collection, with or without the class of its target. -/
def peopleReference (className : Option String) : Value :=
  .reference ⟨.collection "people" className, .ofInt64 1⟩

/-- A reference that cannot be located is replaced all the same when another one leads to its
target, and one behind a link is not looked at, although it can be located and its target is
stored. -/
theorem references_not_by_location :
    (pupilCatalog.locatedKey? ⟨.collection "people" none, .ofInt64 1⟩ = none ∧
      (resolveValues pupilCatalog 1 [peopleReference none, peopleReference (some "Author")]
        (twoPupils "people")).1 =
        .ok [.linked (loadedPupil 1 2 (pupilReference 2)),
          .linked (loadedPupil 1 2 (pupilReference 2))]) ∧
    (pupilCatalog.locatedKey? ⟨.type "Author", .ofInt64 2⟩ = some ("authors", "2") ∧
      ((twoPupils "authors").recordAt? ("authors", "2")).isSome ∧
      (resolveValues pupilCatalog 2 [.linked (loadedPupil 1 2 (pupilReference 2))]
        (twoPupils "authors")).1 =
        .ok [.linked (loadedPupil 1 2 (pupilReference 2))]) :=
  ⟨⟨rfl, rfl⟩, rfl, rfl, rfl⟩

end DocumentMapper
