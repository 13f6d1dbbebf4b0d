import DocumentMapper.Proofs.Segments
import DocumentMapper.Proofs.SingleUpdate
import DocumentMapper.Proofs.StoredEdit
import DocumentMapper.Storage.Encoding
import Mathlib.Data.List.TakeWhile

/-!
# Patches as edits

A patch sets some paths of a stored document and removes others. Sent as an update under a filter on
the id, it makes these edits of the content of the document, one after the other, as long as none of
its paths begins with the id. A path with a `$` segment makes the update fail, because a filter on
the id puts no condition on any array.

## Main results

* `positionalPath_of_leavesId`: what such a filter makes of a path;
* `Object.apply_toUpdate`: the update makes the edits of the patch;
* `Object.updated_eq_ok`, `Object.updated_of_runEdits`: the update succeeds exactly when the edits
  do.
-/

namespace DocumentMapper

open Text

namespace Patch

/-- The paths that a patch sets or removes. -/
def paths (p : Patch) : List String :=
  p.sets.map Prod.fst ++ p.unsets.map Prod.fst

/-- Every value that a patch sets is well formed. -/
def WellFormed (p : Patch) : Prop :=
  ∀ e ∈ p.sets, e.2.WellFormed

/-- No path of a patch begins with the id. -/
def LeavesId (p : Patch) : Prop :=
  ∀ path ∈ p.paths, (dottedSegments path).head? ≠ some idKey

/-- No path of a patch has a segment that stands for a position. -/
def Plain (p : Patch) : Prop :=
  ∀ path ∈ p.paths, "$" ∉ dottedSegments path

/-- A patch that can be sent: it has entries, well-formed values, and leaves the id alone. -/
structure Sendable (p : Patch) : Prop where
  nonempty : p.isEmpty = false
  wellFormed : p.WellFormed
  leavesId : p.LeavesId

/-- The edits that a patch makes. -/
def edits (p : Patch) : List (List String × Edit) :=
  p.sets.map (fun e => (dottedSegments e.1, .set e.2.content)) ++
    p.unsets.map fun e => (dottedSegments e.1, .unset)

/-- The edits of a patch are made at its paths. -/
theorem mem_edits {p : Patch} {edit : List String × Edit} (h : edit ∈ p.edits) :
    ∃ path ∈ p.paths, edit.1 = dottedSegments path := by
  simp only [edits, List.mem_append, List.mem_map] at h
  rcases h with ⟨e, he, rfl⟩ | ⟨e, he, rfl⟩
  · exact ⟨e.1, List.mem_append_left _ (List.mem_map_of_mem he), rfl⟩
  · exact ⟨e.1, List.mem_append_right _ (List.mem_map_of_mem he), rfl⟩

end Patch

/-! ### Positional segments under a filter on the id -/

/-- A filter on the id puts no condition below any array. -/
theorem conditionsBelow_idKey (id : Json) (arrayPath : String) :
    conditionsBelow [(idKey, id)] arrayPath = [] := by
  have hnot : beginsWith (arrayPath ++ ".") idKey = false := by
    rw [Bool.eq_false_iff]
    intro h
    have hprefix := List.isPrefixOf_iff_prefix.mp h
    have hpoint : '.' ∈ idKey.toList := hprefix.subset (by simp)
    exact absurd hpoint (by decide)
  simp [conditionsBelow, dropStart?, hnot]

/-- A filter on the id puts no condition on an array at a path that does not begin with the id. -/
theorem get?_idKey_dotted {id : Json} {path : String} {front : List String}
    (hfront : front <+: dottedSegments path) (hpath : (dottedSegments path).head? ≠ some idKey) :
    Entries.get? [(idKey, id)] (dotted front) = none := by
  have hne : idKey ≠ dotted front := by
    cases front with
    | nil => decide
    | cons first rest =>
      intro heq
      cases rest with
      | nil =>
        obtain ⟨more, hmore⟩ := hfront
        have hfirst : dotted [first] = first := by simp [dotted, joinStrings, joinWith]
        rw [hfirst] at heq
        rw [← hmore, heq] at hpath
        exact hpath rfl
      | cons second rest =>
        have hpoint : '.' ∈ (dotted (first :: second :: rest)).toList := by
          simp [dotted, joinStrings, joinWith]
        rw [← heq] at hpoint
        exact absurd hpoint (by decide)
  simp [Entries.get?, hne]

/-- Without any condition no item is found. -/
theorem firstMeeting_nil_none (items : List Json) (index : Nat) :
    firstMeeting [] none index items = .error .positional := by
  induction items generalizing index with
  | nil => rfl
  | cons item rest ih => exact ih (index + 1)

/-- A path without a positional segment is taken as it is, under every filter. -/
theorem positionalPath_of_plain {path : String} (hpath : "$" ∉ dottedSegments path)
    (doc filter : Object) : positionalPath doc filter path = .ok path := by
  have hall : (dottedSegments path).takeWhile (· ≠ "$") = dottedSegments path := by
    rw [List.takeWhile_eq_self_iff]
    intro segment hsegment
    simpa using fun h : segment = "$" => hpath (h ▸ hsegment)
  unfold positionalPath
  simp only [hall, List.drop_length]
  rfl

/-- **Under a filter on the id a positional segment stands for nothing**, and a path without one is
taken as it is. -/
theorem positionalPath_of_leavesId {path : String}
    (hpath : (dottedSegments path).head? ≠ some idKey) (doc : Object) (id : Json) :
    positionalPath doc [(idKey, id)] path =
      if "$" ∈ dottedSegments path then .error .positional else .ok path := by
  by_cases hmem : "$" ∈ dottedSegments path
  · unfold positionalPath
    have hfront : (dottedSegments path).takeWhile (· ≠ "$") <+: dottedSegments path :=
      List.takeWhile_prefix _
    have hdrop : (dottedSegments path).drop ((dottedSegments path).takeWhile (· ≠ "$")).length ≠
        [] := by
      intro hnil
      have hall : (dottedSegments path).takeWhile (· ≠ "$") = dottedSegments path :=
        hfront.eq_of_length_le (List.drop_eq_nil_iff.mp hnil)
      rw [← hall] at hmem
      simpa using List.mem_takeWhile_imp hmem
    cases hrest : (dottedSegments path).drop ((dottedSegments path).takeWhile (· ≠ "$")).length with
    | nil => exact absurd hrest hdrop
    | cons segment rest =>
      simp only [hrest, hmem, ↓reduceIte, conditionsBelow_idKey,
        get?_idKey_dotted hfront hpath, firstMeeting_nil_none]
      rfl
  · rw [positionalPath_of_plain hmem, if_neg hmem]

/-! ### Applying a patch -/

/-- Edits one after the other are made in two parts. -/
theorem runEdits_append (as bs : List (List String × Edit)) (part : Option Content) :
    runEdits (as ++ bs) part = (runEdits as part).bind (runEdits bs) := by
  induction as generalizing part with
  | nil => rfl
  | cons a as ih =>
    simp only [List.cons_append, runEdits, Option.bind_assoc]
    congr 1
    funext part
    exact ih part

namespace Applied

/-- An application has made edits of a document: it fails where they fail, and otherwise its
document has the content that they lead to. The document stays well formed and keeps its id. -/
structure Makes (a : Applied) (edits : List (List String × Edit)) (doc : Object) : Prop where
  content : runEdits edits (some doc.content) =
    if a.failure.isNone then some (some a.doc.content) else none
  wellFormed : a.doc.WellFormed
  id : a.doc.get? idKey = doc.get? idKey

/-- Without any edit a document stays as it is. -/
theorem Makes.nil {doc : Object} (hdoc : doc.WellFormed) : Makes ⟨doc, none⟩ [] doc :=
  ⟨rfl, hdoc, rfl⟩

/-- What goes on after some edits makes further ones. -/
theorem Makes.andThen {a : Applied} {next : Object → Applied}
    {first rest : List (List String × Edit)} {doc : Object} (ha : a.Makes first doc)
    (hnext : (next a.doc).Makes rest a.doc) : (a.andThen next).Makes (first ++ rest) doc := by
  obtain ⟨changed, failure⟩ := a
  obtain ⟨hcontent, hwf, hid⟩ := ha
  cases failure with
  | some cause =>
    refine ⟨?_, hwf, hid⟩
    rw [runEdits_append, hcontent]
    rfl
  | none =>
    refine ⟨?_, hnext.wellFormed, hnext.id.trans hid⟩
    rw [runEdits_append, hcontent]
    exact hnext.content

end Applied

namespace Object

/-- Setting a path makes one edit. -/
theorem makes_set {doc : Object} {path : String} {new : Json} (hdoc : doc.WellFormed)
    (hnew : new.WellFormed) (hpath : (dottedSegments path).head? ≠ some idKey) :
    (doc.applyOperator "$set" path new false).Makes
      [(dottedSegments path, .set new.content)] doc := by
  have happly : doc.applyOperator "$set" path new false = .ofExcept doc (doc.setPath path new) := rfl
  have hset := content_setPath doc path new
  rw [happly]
  cases h : doc.setPath path new with
  | error cause =>
    rw [h] at hset
    refine ⟨?_, hdoc, rfl⟩
    simp only [runEdits, ← hset]
    rfl
  | ok doc' =>
    rw [h] at hset
    refine ⟨?_, wellFormed_setPath hdoc hnew h, ?_⟩
    · simp only [runEdits, ← hset]
      rfl
    · cases hsegments : dottedSegments path with
      | nil => exact absurd hsegments (dottedSegments_ne_nil path)
      | cons first rest =>
        rw [hsegments] at hpath
        exact get?_setPath_of_ne hsegments (fun heq => hpath (by rw [heq]; rfl)) h

/-- Removing a path makes one edit. -/
theorem makes_unset {doc : Object} {path : String} (operand : Json) (hdoc : doc.WellFormed)
    (hpath : (dottedSegments path).head? ≠ some idKey) :
    (doc.applyOperator "$unset" path operand false).Makes [(dottedSegments path, .unset)] doc := by
  have happly : doc.applyOperator "$unset" path operand false = ⟨doc.removePath path, none⟩ := rfl
  rw [happly]
  refine ⟨?_, wellFormed_removePath hdoc path, ?_⟩
  · simp only [runEdits, content_removePath hdoc path]
    rfl
  · cases hsegments : dottedSegments path with
    | nil => exact absurd hsegments (dottedSegments_ne_nil path)
    | cons first rest =>
      rw [hsegments] at hpath
      exact get?_removePath_of_ne hsegments fun heq => hpath (by rw [heq]; rfl)

/-- The entries of an operator make an edit each, if each application of the operator does. -/
theorem makes_applyEntries {before : Object} {id : Json} {op : String} {entries : Object}
    (edit : Json → Edit) (hid : ∀ e ∈ entries, (dottedSegments e.1).head? ≠ some idKey)
    (hplain : ∀ e ∈ entries, "$" ∉ dottedSegments e.1)
    (hop : ∀ doc : Object, doc.WellFormed → ∀ e ∈ entries,
      (doc.applyOperator op e.1 e.2 false).Makes [(dottedSegments e.1, edit e.2)] doc)
    {doc : Object} (hdoc : doc.WellFormed) :
    (applyEntries before [(idKey, id)] op false entries doc).Makes
      (entries.map fun e => (dottedSegments e.1, edit e.2)) doc := by
  induction entries generalizing doc with
  | nil => exact .nil hdoc
  | cons e rest ih =>
    obtain ⟨path, operand⟩ := e
    have hpath := positionalPath_of_leavesId (hid _ List.mem_cons_self) before id
    rw [if_neg (hplain _ List.mem_cons_self)] at hpath
    simp only [applyEntries, hpath]
    have hfirst := hop doc hdoc _ List.mem_cons_self
    exact hfirst.andThen (ih (fun e he => hid e (List.mem_cons_of_mem _ he))
      (fun e he => hplain e (List.mem_cons_of_mem _ he))
      (fun doc hdoc e he => hop doc hdoc e (List.mem_cons_of_mem _ he)) hfirst.wellFormed)

/-- An entry with a positional segment makes the application fail. -/
theorem applyEntries_failure {before doc : Object} {id : Json} {op : String} {entries : Object}
    (hid : ∀ e ∈ entries, (dottedSegments e.1).head? ≠ some idKey)
    (hdollar : ∃ e ∈ entries, "$" ∈ dottedSegments e.1) :
    (applyEntries before [(idKey, id)] op false entries doc).failure ≠ none := by
  induction entries generalizing doc with
  | nil => simp at hdollar
  | cons e rest ih =>
    obtain ⟨path, operand⟩ := e
    have hpath := positionalPath_of_leavesId (hid _ List.mem_cons_self) before id
    by_cases hmem : "$" ∈ dottedSegments path
    · rw [if_pos hmem] at hpath
      simp [applyEntries, hpath]
    · rw [if_neg hmem] at hpath
      have hrest : ∃ e ∈ rest, "$" ∈ dottedSegments e.1 := by
        obtain ⟨e, he, hdollar⟩ := hdollar
        rcases List.mem_cons.mp he with rfl | he
        · exact absurd hdollar hmem
        · exact ⟨e, he, hdollar⟩
      simp only [applyEntries, hpath, Applied.andThen]
      split
      · rename_i cause hcause
        simp [hcause]
      · exact ih (fun e he => hid e (List.mem_cons_of_mem _ he)) hrest

/-- Two sides of an update are applied one after the other. -/
theorem applyOperators_append (before filter : Object) (inserting : Bool)
    (first rest : List (String × Json)) (doc : Object) :
    applyOperators before filter inserting (first ++ rest) doc =
      (applyOperators before filter inserting first doc).andThen
        (applyOperators before filter inserting rest) := by
  induction first generalizing doc with
  | nil => rfl
  | cons e more ih =>
    obtain ⟨op, operand⟩ := e
    cases operand with
    | object entries =>
      simp only [List.cons_append, applyOperators]
      cases hentries : applyEntries before filter op inserting entries doc with
      | mk changed failure =>
        cases failure with
        | some cause => rfl
        | none => exact ih changed
    | null => rfl
    | bool b => rfl
    | whole n => rfl
    | float x => rfl
    | string s => rfl
    | array items => rfl

/-- A side of an update that is left out when it is empty makes the edits of its entries. -/
theorem makes_side {before filter : Object} {op : String} {entries : Object}
    {edits : List (List String × Edit)} {doc : Object} (hdoc : doc.WellFormed)
    (hempty : entries = [] → edits = [])
    (h : (applyEntries before filter op false entries doc).Makes edits doc) :
    (applyOperators before filter false
      (if entries.isEmpty then [] else [(op, .object entries)]) doc).Makes edits doc := by
  cases entries with
  | nil =>
    rw [hempty rfl]
    exact .nil hdoc
  | cons e rest =>
    have hlast : ((applyEntries before filter op false (e :: rest) doc).andThen
        (applyOperators before filter false [])).Makes (edits ++ []) doc :=
      h.andThen (.nil h.wellFormed)
    rw [List.append_nil] at hlast
    exact hlast

/-- The update of a patch has operators. -/
theorem apply_toUpdate_eq {p : Patch} (hempty : p.isEmpty = false) (doc filter : Object) :
    doc.apply filter p.toUpdate false = applyOperators doc filter false p.toUpdate doc := by
  have hset : beginsWith "$" "$set" = true := rfl
  have hunset : beginsWith "$" "$unset" = true := rfl
  obtain ⟨sets, unsets⟩ := p
  cases sets with
  | cons e rest => simp [apply, Patch.toUpdate, hset]
  | nil =>
    cases unsets with
    | cons e rest => simp [apply, Patch.toUpdate, hunset]
    | nil => simp [Patch.isEmpty] at hempty

/-- **The update of a patch makes the edits of the patch.** -/
theorem apply_toUpdate {p : Patch} (hp : p.Sendable) (hplain : p.Plain) (id : Json) {doc : Object}
    (hdoc : doc.WellFormed) : (doc.apply [(idKey, id)] p.toUpdate false).Makes p.edits doc := by
  have hsets : ∀ e ∈ p.sets, e.1 ∈ p.paths := fun e he =>
    List.mem_append_left _ (List.mem_map_of_mem he)
  have hunsets : ∀ e ∈ p.unsets, e.1 ∈ p.paths := fun e he =>
    List.mem_append_right _ (List.mem_map_of_mem he)
  have hset : ∀ {doc' : Object}, doc'.WellFormed →
      (applyEntries doc [(idKey, id)] "$set" false p.sets doc').Makes
        (p.sets.map fun e => (dottedSegments e.1, .set e.2.content)) doc' := fun hdoc' =>
    makes_applyEntries (fun new => .set new.content)
      (fun e he => hp.leavesId _ (hsets e he)) (fun e he => hplain _ (hsets e he))
      (fun doc' hdoc' e he =>
        makes_set hdoc' (hp.wellFormed e he) (hp.leavesId _ (hsets e he))) hdoc'
  have hunset : ∀ {doc' : Object}, doc'.WellFormed →
      (applyEntries doc [(idKey, id)] "$unset" false p.unsets doc').Makes
        (p.unsets.map fun e => (dottedSegments e.1, .unset)) doc' := fun hdoc' =>
    makes_applyEntries (fun _ => .unset)
      (fun e he => hp.leavesId _ (hunsets e he)) (fun e he => hplain _ (hunsets e he))
      (fun doc' hdoc' e he => makes_unset e.2 hdoc' (hp.leavesId _ (hunsets e he))) hdoc'
  rw [apply_toUpdate_eq hp.nonempty, Patch.toUpdate, applyOperators_append]
  have hfirst := makes_side hdoc (fun h => by simp [h]) (hset hdoc)
  exact hfirst.andThen (makes_side hfirst.wellFormed (fun h => by simp [h])
    (hunset hfirst.wellFormed))

/-- The update of a patch with a positional segment fails. -/
theorem apply_toUpdate_failure {p : Patch} (hp : p.Sendable) (hplain : ¬ p.Plain) (id : Json)
    (doc : Object) :
    (doc.apply [(idKey, id)] p.toUpdate false).failure ≠ none := by
  have hside : ∀ (op : String) (entries doc' : Object),
      (∀ e ∈ entries, (dottedSegments e.1).head? ≠ some idKey) →
      (∃ e ∈ entries, "$" ∈ dottedSegments e.1) →
      (applyOperators doc [(idKey, id)] false
        (if entries.isEmpty then [] else [(op, .object entries)]) doc').failure ≠ none := by
    intro op entries doc' hid hdollar
    cases entries with
    | nil => simp at hdollar
    | cons e rest =>
      have hfail : (applyEntries doc [(idKey, id)] op false (e :: rest) doc').failure ≠ none :=
        applyEntries_failure hid hdollar
      simp only [List.isEmpty_cons, Bool.false_eq_true, ↓reduceIte, applyOperators, Applied.andThen]
      split
      · exact hfail
      · rename_i hnone
        exact absurd hnone hfail
  have hsets : ∀ e ∈ p.sets, (dottedSegments e.1).head? ≠ some idKey := fun e he =>
    hp.leavesId _ (List.mem_append_left _ (List.mem_map_of_mem he))
  have hunsets : ∀ e ∈ p.unsets, (dottedSegments e.1).head? ≠ some idKey := fun e he =>
    hp.leavesId _ (List.mem_append_right _ (List.mem_map_of_mem he))
  rw [apply_toUpdate_eq hp.nonempty, Patch.toUpdate, applyOperators_append]
  have hsome : (∃ e ∈ p.sets, "$" ∈ dottedSegments e.1) ∨
      ∃ e ∈ p.unsets, "$" ∈ dottedSegments e.1 := by
    simp only [Patch.Plain, Patch.paths, not_forall, not_not, List.mem_append,
      List.mem_map] at hplain
    obtain ⟨path, ⟨e, he, rfl⟩ | ⟨e, he, rfl⟩, hdollar⟩ := hplain
    · exact .inl ⟨e, he, hdollar⟩
    · exact .inr ⟨e, he, hdollar⟩
  unfold Applied.andThen
  split
  · rename_i cause hcause
    rw [hcause]
    exact Option.some_ne_none cause
  · rename_i hnone
    rcases hsome with hsets' | hunsets'
    · exact absurd hnone (hside "$set" p.sets doc hsets hsets')
    · exact hside "$unset" p.unsets _ hunsets hunsets'

/-! ### The updated record -/

/-- **A patch that could be sent has made its edits** in the record that it was sent to. -/
theorem updated_eq_ok {p : Patch} (hp : p.Sendable) {id : Json} {doc doc' : Object}
    (hdoc : doc.WellFormed) (h : doc.updated [(idKey, id)] p.toUpdate = .ok doc') :
    p.Plain ∧ runEdits p.edits (some doc.content) = some (some doc'.content) ∧
      doc'.WellFormed ∧ doc'.get? idKey = doc.get? idKey := by
  have hnone : (doc.apply [(idKey, id)] p.toUpdate false).failure = none := by
    cases hfailure : (doc.apply [(idKey, id)] p.toUpdate false).failure with
    | none => rfl
    | some cause =>
      simp only [updated, Applied.result, hfailure] at h
      cases h
  have hplain : p.Plain := by
    by_contra hnot
    exact apply_toUpdate_failure hp hnot id doc hnone
  have hmakes := apply_toUpdate hp hplain id hdoc
  have hcontent := hmakes.content
  rw [hnone] at hcontent
  refine ⟨hplain, ?_⟩
  have hupdated : (if !(doc.apply [(idKey, id)] p.toUpdate false).doc.equal doc then
      (doc.apply [(idKey, id)] p.toUpdate false).doc else doc) = doc' := by
    simp only [updated, Applied.result, hnone] at h
    exact Except.ok.inj h
  cases hequal : (doc.apply [(idKey, id)] p.toUpdate false).doc.equal doc with
  | false =>
    rw [hequal] at hupdated
    obtain rfl := hupdated
    exact ⟨hcontent, hmakes.wellFormed, hmakes.id⟩
  | true =>
    rw [hequal] at hupdated
    obtain rfl := hupdated
    rw [(equal_iff_content hmakes.wellFormed hdoc).mp hequal] at hcontent
    exact ⟨hcontent, hdoc, rfl⟩

/-- A patch can be sent to a record in which its edits can be made. -/
theorem updated_of_runEdits {p : Patch} (hp : p.Sendable) (hplain : p.Plain) (id : Json)
    {doc : Object} (hdoc : doc.WellFormed) (h : (runEdits p.edits (some doc.content)).isSome) :
    ∃ doc', doc.updated [(idKey, id)] p.toUpdate = .ok doc' := by
  have hcontent := (apply_toUpdate hp hplain id hdoc).content
  cases hfailure : (doc.apply [(idKey, id)] p.toUpdate false).failure with
  | none =>
    simp only [updated, Applied.result, hfailure]
    exact ⟨_, rfl⟩
  | some cause =>
    rw [hcontent, hfailure] at h
    cases h

end Object

end DocumentMapper
