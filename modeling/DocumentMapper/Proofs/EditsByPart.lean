import DocumentMapper.Proofs.ContentEdit
import DocumentMapper.Proofs.DottedPaths
import DocumentMapper.Proofs.Pruning

/-!
# Edits sorted by the part that they are made in

A sequence of edits below a value with parts is a sequence of edits in each part: those whose path
begins with the name of the part, in their order. What becomes of a part depends on these alone.

## Main results

* `runEdits_here`: edits of the value itself leave what they put there;
* `runEdits_object`, `runEdits_array`: edits below an object and below an array, part by part;
* `runEdits_missing`: edits below a missing value come to what they make of an object without
  entries, up to blank entries.
-/

namespace DocumentMapper

open Text Content

/-- What an edit puts at the end of its path. -/
def Edit.outcome : Edit → Option Content
  | .set v => some v
  | .unset => none

/-- The edits of a part, with their paths from there on. -/
def editsBelow (segment : String) (edits : List (List String × Edit)) :
    List (List String × Edit) :=
  edits.filterMap fun e =>
    match e.1 with
    | [] => none
    | first :: rest => if first = segment then some (rest, e.2) else none

theorem mem_editsBelow {segment : String} {edits : List (List String × Edit)}
    {path : List String} {edit : Edit} :
    (path, edit) ∈ editsBelow segment edits ↔ (segment :: path, edit) ∈ edits := by
  simp only [editsBelow, List.mem_filterMap]
  constructor
  · rintro ⟨⟨p, e⟩, hmem, hcut⟩
    cases p with
    | nil => cases hcut
    | cons first rest =>
      by_cases hfirst : first = segment
      · simp only [hfirst, ↓reduceIte, Option.some.injEq, Prod.mk.injEq] at hcut
        obtain ⟨rfl, rfl⟩ := hcut
        rwa [hfirst] at hmem
      · simp [hfirst] at hcut
  · intro h
    exact ⟨_, h, by simp⟩

theorem editsBelow_cons_self (segment : String) (path : List String) (edit : Edit)
    (edits : List (List String × Edit)) :
    editsBelow segment ((segment :: path, edit) :: edits) =
      (path, edit) :: editsBelow segment edits := by
  simp [editsBelow]

theorem editsBelow_cons_of_ne {segment other : String} (h : other ≠ segment) (path : List String)
    (edit : Edit) (edits : List (List String × Edit)) :
    editsBelow segment ((other :: path, edit) :: edits) = editsBelow segment edits := by
  simp [editsBelow, h]

/-- **Edits of the value itself** leave what they put there, if they all put the same. -/
theorem runEdits_here {edits : List (List String × Edit)} {result : Option Content}
    (hne : edits ≠ []) (h : ∀ e ∈ edits, e.1 = [] ∧ e.2.outcome = result)
    (part : Option Content) : runEdits edits part = some result := by
  have hat : ∀ e ∈ edits, ∀ part, e.2.at e.1 part = some result := by
    rintro ⟨path, edit⟩ he part
    obtain ⟨hpath, houtcome⟩ := h _ he
    simp only at hpath houtcome
    subst hpath
    rw [← houtcome]
    cases edit <;> rfl
  induction edits generalizing part with
  | nil => exact absurd rfl hne
  | cons e rest ih =>
    rw [runEdits, hat e List.mem_cons_self, Option.bind_some]
    cases rest with
    | nil => rfl
    | cons e' rest =>
      exact ih (List.cons_ne_nil _ _) (fun e he => h e (List.mem_cons_of_mem _ he)) _
        fun e he => hat e (List.mem_cons_of_mem _ he)

/-! ### Objects -/

/-- **Edits below an object** are edits in its entries. -/
theorem runEdits_object {edits : List (List String × Edit)} (hbelow : ∀ e ∈ edits, e.1 ≠ [])
    {entry : String → Option Content} {part : Option Content}
    (h : runEdits edits (some (object entry)) = some part) :
    ∃ entry', part = some (object entry') ∧
      ∀ key, runEdits (editsBelow key edits) (entry key) = some (entry' key) := by
  induction edits generalizing entry with
  | nil => exact ⟨entry, (Option.some.inj h).symm, fun _ => rfl⟩
  | cons e rest ih =>
    obtain ⟨path, edit⟩ := e
    cases path with
    | nil => exact absurd rfl (hbelow _ List.mem_cons_self)
    | cons segment path =>
      obtain ⟨next, hfirst, hrest⟩ := Option.bind_eq_some_iff.mp h
      rw [Edit.at_cons_of_opened edit rfl] at hfirst
      obtain ⟨w, hchange, rfl⟩ := Option.map_eq_some_iff.mp hfirst
      obtain ⟨new, hnew, rfl⟩ := Option.map_eq_some_iff.mp hchange
      obtain ⟨entry', rfl, hentries⟩ := ih (fun e he => hbelow e (List.mem_cons_of_mem _ he)) hrest
      refine ⟨entry', rfl, fun key => ?_⟩
      have hkey := hentries key
      by_cases hsame : segment = key
      · subst hsame
        rw [if_pos rfl] at hkey
        rw [editsBelow_cons_self, runEdits, hnew]
        exact hkey
      · rw [if_neg (Ne.symm hsame)] at hkey
        rw [editsBelow_cons_of_ne hsame]
        exact hkey

/-- Edits below a missing value come to what they make of an object without entries. -/
theorem runEdits_missing {edits : List (List String × Edit)} (hbelow : ∀ e ∈ edits, e.1 ≠ [])
    {part : Option Content} (h : runEdits edits none = some part) :
    ∃ part', runEdits edits (some noEntries) = some part' ∧ prunedPart part = prunedPart part' := by
  induction edits with
  | nil =>
    obtain rfl := Option.some.inj h
    refine ⟨some noEntries, rfl, ?_⟩
    rw [prunedPart_none, prunedPart_blank]
    intro key
    rfl
  | cons e rest ih =>
    obtain ⟨path, edit⟩ := e
    cases path with
    | nil => exact absurd rfl (hbelow _ List.mem_cons_self)
    | cons segment path =>
      cases edit with
      | set v =>
        rw [runEdits, Edit.at_set_missing (.inl rfl)] at h
        exact ⟨part, h, rfl⟩
      | unset =>
        rw [runEdits, Edit.at_unset_none, Option.bind_some] at h
        rw [runEdits, Edit.at_unset_noEntries, Option.bind_some]
        exact ih (fun e he => hbelow e (List.mem_cons_of_mem _ he)) h

/-! ### Arrays -/

/-- A change that takes null for a missing value makes the same of what is the same up to that. -/
theorem NullAlike.map_getD {f : Option Content → Option (Option Content)} (hf : NullAlike f)
    {a b : Option Content} (h : a.getD null = b.getD null) :
    (f a).map (·.getD null) = (f b).map (·.getD null) := by
  cases a with
  | none =>
    cases b with
    | none => rfl
    | some w =>
      obtain rfl : null = w := h
      exact hf.symm
  | some v =>
    cases b with
    | none =>
      obtain rfl : v = null := h
      exact hf
    | some w =>
      obtain rfl : v = w := h
      rfl

/-- A sequence of edits takes null for a missing value. -/
theorem nullAlike_runEdits (edits : List (List String × Edit)) : NullAlike (runEdits edits) := by
  induction edits with
  | nil => rfl
  | cons e rest ih =>
    have hfirst := Edit.nullAlike_at e.2 e.1
    simp only [NullAlike, runEdits] at hfirst ⊢
    rcases ha : e.2.at e.1 (some null) with _ | a <;> rcases hb : e.2.at e.1 none with _ | b <;>
      simp only [ha, hb, Option.map_some, Option.map_none, reduceCtorEq, Option.some.injEq] at hfirst
    · rfl
    · exact NullAlike.map_getD ih hfirst

/-- **Edits below an array** are edits in its items, as long as they name positions that it has. -/
theorem runEdits_array {edits : List (List String × Edit)} {items : List Content}
    (hshort : items.length ≤ Number.wordCount)
    (hbelow : ∀ e ∈ edits, ∃ i < items.length, ∃ rest, e.1 = toString i :: rest)
    {part : Option Content} (h : runEdits edits (some (array items)) = some part) :
    ∃ items', part = some (array items') ∧ items'.length = items.length ∧
      ∀ i (hi : i < items.length), ∃ new,
        runEdits (editsBelow (toString i) edits) (some items[i]) = some new ∧
          items'[i]? = some (new.getD null) := by
  induction edits generalizing items with
  | nil =>
    refine ⟨items, (Option.some.inj h).symm, rfl, fun i hi => ⟨some items[i], rfl, ?_⟩⟩
    exact List.getElem?_eq_getElem hi
  | cons e rest ih =>
    obtain ⟨path, edit⟩ := e
    obtain ⟨i, hi, path, rfl⟩ := hbelow _ List.mem_cons_self
    obtain ⟨next, hfirst, hrest⟩ := Option.bind_eq_some_iff.mp h
    rw [Edit.at_cons_of_opened edit rfl] at hfirst
    obtain ⟨w, hchange, rfl⟩ := Option.map_eq_some_iff.mp hfirst
    have hposition : position? (toString i) = some i := position?_toString (by omega)
    simp only [change_array, hposition] at hchange
    obtain ⟨new, hnew, rfl⟩ := Option.map_eq_some_iff.mp hchange
    rw [List.getElem?_eq_getElem hi] at hnew
    rw [storeItem_of_lt hi] at hrest
    obtain ⟨items', rfl, hlength, hitems⟩ := ih (by simpa using hshort)
      (fun e he => by simpa using hbelow e (List.mem_cons_of_mem _ he)) hrest
    rw [List.length_set] at hlength
    refine ⟨items', rfl, hlength, fun k hk => ?_⟩
    obtain ⟨new', hnew', hitem'⟩ := hitems k (by simpa using hk)
    by_cases hik : i = k
    · subst hik
      rw [List.getElem_set_self] at hnew'
      rw [editsBelow_cons_self, runEdits, hnew, Option.bind_some]
      -- The item has become null where the first edit has left nothing.
      have hsame := NullAlike.map_getD (nullAlike_runEdits (editsBelow (toString i) rest))
        (a := new) (b := some (new.getD null)) (by cases new <;> rfl)
      rw [hnew', Option.map_some] at hsame
      obtain ⟨last, hlast, heq⟩ := Option.map_eq_some_iff.mp hsame
      exact ⟨last, hlast, by rw [hitem', heq]⟩
    · rw [List.getElem_set_ne hik] at hnew'
      rw [editsBelow_cons_of_ne fun heq => hik (toString_injective heq)]
      exact ⟨new', hnew', hitem'⟩

end DocumentMapper
