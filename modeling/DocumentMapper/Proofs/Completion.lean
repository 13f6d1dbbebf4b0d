import DocumentMapper.Document.Defaults
import DocumentMapper.Proofs.Runs
import DocumentMapper.Proofs.Tracking

/-!
# Completed documents are complete

A document can always take its defaults. Afterwards no attribute of it waits for one, and the same
holds of every document inside it, those in the defaults included.

The completions that a document runs are followed by their keys: adding defaults drops no key, adds
one for each field with a default, and every completion ends in a complete value.

## Main results

* `Document.completed_ends`: `Document.completed` ends in a complete document.
-/

namespace DocumentMapper

open Drawing

/-- The completions end in complete values. -/
def EndComplete (completions : List (String × Completion)) : Prop :=
  ∀ e ∈ completions, Ends e.2 Value.Complete

/-- Completions to which the defaults of some fields were added: they have the keys that were there,
and those of the fields with a default. -/
structure DefaultsAdded (fields : List Field) (before after : List (String × Completion)) : Prop where
  complete : EndComplete before → EndComplete after
  kept : ∀ key, (Entries.get? before key).isSome → (Entries.get? after key).isSome
  added : ∀ f ∈ fields, f.default ≠ none → (Entries.get? after f.name).isSome

theorem DefaultsAdded.nil (completions : List (String × Completion)) :
    DefaultsAdded [] completions completions :=
  ⟨id, fun _ => id, by simp⟩

theorem DefaultsAdded.cons {f : Field} {fs : List Field} {a b c : List (String × Completion)}
    (hf : DefaultsAdded [f] a b) (hfs : DefaultsAdded fs b c) : DefaultsAdded (f :: fs) a c := by
  refine ⟨hfs.complete ∘ hf.complete, fun key h => hfs.kept key (hf.kept key h), fun g hg hdefault => ?_⟩
  rcases List.mem_cons.mp hg with rfl | hg
  · exact hfs.kept _ (hf.added g List.mem_cons_self hdefault)
  · exact hfs.added g hg hdefault

/-- Values that completions have ended in: they have the same keys and are complete. -/
structure CompletedAs (completions : List (String × Completion)) (values : List (String × Value)) :
    Prop where
  keys : ∀ key, (Entries.get? values key).isSome ↔ (Entries.get? completions key).isSome
  complete : ∀ e ∈ values, e.2.Complete

/-- Completions that end in complete values end in them together. -/
theorem ends_completeAll {completions : List (String × Completion)} (h : EndComplete completions) :
    Ends (completeAll completions) (CompletedAs completions) := by
  induction completions with
  | nil => exact .pure ⟨by simp, by simp⟩
  | cons first rest ih =>
    obtain ⟨k, complete⟩ := first
    refine .bind (h _ List.mem_cons_self) fun v hv => ?_
    refine .bind (ih fun e he => h e (List.mem_cons_of_mem _ he)) fun values hvalues => ?_
    refine .pure ⟨fun key => ?_, fun e he => ?_⟩
    · by_cases hk : k = key
      · simp [Entries.get?, hk]
      · simpa [Entries.get?, hk] using hvalues.keys key
    · rcases List.mem_cons.mp he with rfl | he
      · exact hv
      · exact hvalues.complete e he

/-- A document with the keys of completions to which defaults were added lacks none of them. -/
theorem lacksNoDefault_of_added {fields : List Field} {before after : List (String × Completion)}
    {values : List (String × Value)} (h : DefaultsAdded fields before after)
    (hvalues : CompletedAs after values) {name : String} {f : Field}
    (hf : fields.find? (fun f => f.name == name) = some f)
    (hnone : Entries.get? values name = none) : f.default = none := by
  have hname : f.name = name := by simpa using List.find?_some hf
  rcases Option.eq_none_or_eq_some f.default with hdefault | ⟨d, hdefault⟩
  · exact hdefault
  · have hne : f.default ≠ none := by simp [hdefault]
    have hsome := (hvalues.keys f.name).mpr (h.added f (List.mem_of_find?_eq_some hf) hne)
    rw [hname, hnone] at hsome
    cases hsome

mutual

/-- The completion of a value ends in a complete one. -/
theorem Value.completed_ends : ∀ (v : Value), Ends v.completed Value.Complete
  | .document doc => .bind (Document.completed_ends doc) fun _ hdoc => .pure hdoc
  | .list items => .bind (completedItems_ends items) fun _ hitems => .pure hitems
  | .dict entries =>
    .bind (ends_completeAll (endComplete_completionsOf entries)) fun values hvalues =>
      .pure ((completeEntries_iff values).mpr hvalues.complete)
  | .null => .pure trivial
  | .bool _ => .pure trivial
  | .int _ => .pure trivial
  | .float _ => .pure trivial
  | .string _ => .pure trivial
  | .datetime _ => .pure trivial
  | .reference _ => .pure trivial
  | .linked _ => .pure trivial
termination_by structural v => v

/-- The same for some values. -/
theorem completedItems_ends : ∀ (vs : List Value), Ends (completedItems vs) completeValues
  | [] => .pure trivial
  | v :: vs =>
    .bind (Value.completed_ends v) fun _ hv =>
      .bind (completedItems_ends vs) fun _ hvs => .pure ⟨hv, hvs⟩
termination_by structural vs => vs

/-- The completions of some values end in complete ones. -/
theorem endComplete_completionsOf : ∀ (es : List (String × Value)), EndComplete (completionsOf es)
  | [] => by simp [EndComplete, completionsOf]
  | (k, v) :: rest => by
    intro e he
    rcases List.mem_cons.mp he with rfl | he
    · exact Value.completed_ends v
    · exact endComplete_completionsOf rest e he
termination_by structural es => es

/-- **A document can take its defaults**, and then neither it nor a document inside it waits for
one. -/
theorem Document.completed_ends : ∀ (doc : Document), Ends doc.completed Document.Complete
  | ⟨type, values, dirty, raw⟩ => by
    refine .bind (DocumentType.addDefaults_ends type (completionsOf values)) fun after hadded => ?_
    have hend := hadded.complete (endComplete_completionsOf values)
    refine .bind (ends_completeAll hend) fun values' hvalues => .pure ?_
    refine (Document.complete_iff _).mpr ⟨fun name f hf hnone => ?_, hvalues.complete⟩
    exact lacksNoDefault_of_added hadded hvalues hf hnone
termination_by structural doc => doc

/-- A type adds the defaults of its fields. -/
theorem DocumentType.addDefaults_ends : ∀ (t : DocumentType) (before : List (String × Completion)),
    Ends (t.addDefaults before) (DefaultsAdded t.fields before)
  | ⟨_, _, _, fields, _, _, _, _⟩, before => addFieldDefaults_ends fields before
termination_by structural t => t

/-- Several fields add their defaults. -/
theorem addFieldDefaults_ends : ∀ (fields : List Field) (before : List (String × Completion)),
    Ends (addFieldDefaults fields before) (DefaultsAdded fields before)
  | [], before => .pure (.nil before)
  | f :: fs, before => by
    refine .bind (Field.addDefault_ends f before) fun between hf => ?_
    intro s
    obtain ⟨after, t, hrun, hfs⟩ := addFieldDefaults_ends fs between s
    exact ⟨after, t, hrun, .cons hf hfs⟩
termination_by structural fields => fields

/-- A field adds its default. -/
theorem Field.addDefault_ends : ∀ (f : Field) (before : List (String × Completion)),
    Ends (f.addDefault before) (DefaultsAdded [f] before)
  | ⟨_, _, _, _, none, _⟩, _ => .pure ⟨id, fun _ => id, by simp⟩
  | ⟨name, _, _, _, some d, _⟩, before => by
    simp only [Field.addDefault]
    split
    · rename_i hcontains
      exact .pure ⟨id, fun _ => id, by simpa [Entries.contains] using hcontains⟩
    · refine .bind (Default.take_ends d) fun complete hcomplete => .pure ?_
      refine ⟨fun hend e he => ?_, fun key hkey => ?_, by simp⟩
      · rcases Entries.mem_insertSorted he with he | rfl
        · exact hend e he
        · exact hcomplete
      · rw [Entries.get?_insertSorted]
        split
        · rfl
        · exact hkey
termination_by structural f => f

/-- What a default is completed to is complete. -/
theorem Default.take_ends : ∀ (d : Default), Ends d.take fun complete => Ends complete Value.Complete
  | .fixed value => .pure (Value.completed_ends value)
  | .generated key stream => .bind (ends_draw key) fun n _ => .pure (Value.completed_ends (stream n))
termination_by structural d => d

end

end DocumentMapper
