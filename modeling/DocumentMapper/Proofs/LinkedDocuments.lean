import Mathlib.Logic.Relation
import DocumentMapper.Proofs.OneRound

/-!
# Putting documents in place of references

Linking goes depth first. A document is taken out of the fetched ones when the first reference to it
is met, completed by linking its own references, and kept for every later reference. While it is
being completed it is neither with the fetched documents nor with the completed ones, so a reference
that leads back to it stays as it is. The documents that are being completed form a stack, in which
each leads to the next one by references.

`Value.linkedBy` says what a replacement of references changes, and what it leaves alone, without
any order of work.

## Main results

* `Linking.attach_run`: what linking does to a value, given what it does to a key;
* `Linking.works_link`: as many levels are enough as there are fetched documents;
* `Resolution.attachAll_items`: linking replaces every reference by the document of its key, if
  there is one.
-/

namespace DocumentMapper

open Relation

/-! ### Replaced references -/

mutual

/-- The value with the documents of their keys in place of references. Nothing else changes, and
what is linked already is not looked into. -/
def Value.linkedBy (c : Catalog) (f : ObjectKey → Option Document) : Value → Value
  | .reference r =>
    match (c.objectKey? r).bind f with
    | some doc => .linked doc
    | none => .reference r
  | .list items => .list (linkedItems c f items)
  | .dict entries => .dict (linkedEntries c f entries)
  | .document doc => .document (doc.linkedBy c f)
  | v => v
termination_by structural v => v

/-- Some values with the documents of their keys in place of references. -/
def linkedItems (c : Catalog) (f : ObjectKey → Option Document) : List Value → List Value
  | [] => []
  | v :: vs => v.linkedBy c f :: linkedItems c f vs
termination_by structural vs => vs

/-- Some entries with the documents of their keys in place of references. -/
def linkedEntries (c : Catalog) (f : ObjectKey → Option Document) :
    List (String × Value) → List (String × Value)
  | [] => []
  | (k, v) :: rest => (k, v.linkedBy c f) :: linkedEntries c f rest
termination_by structural es => es

/-- The document with the documents of their keys in place of references. -/
def Document.linkedBy (c : Catalog) (f : ObjectKey → Option Document) : Document → Document
  | ⟨type, values, dirty, raw⟩ => ⟨type, linkedEntries c f values, dirty, raw⟩
termination_by structural d => d

end

theorem linkedItems_eq_map (c : Catalog) (f : ObjectKey → Option Document) (vs : List Value) :
    linkedItems c f vs = vs.map (Value.linkedBy c f) := by
  induction vs with
  | nil => rfl
  | cons v vs ih => rw [linkedItems, ih, List.map_cons]

/-- Whether two ways to find documents agree on the targets of some references. -/
def AgreeOn (c : Catalog) (f g : ObjectKey → Option Document) (references : List Reference) :
    Prop :=
  ∀ r ∈ references, ∀ key, c.objectKey? r = some key → f key = g key

section

variable {c : Catalog} {f g : ObjectKey → Option Document} {rs rs' : List Reference}

theorem agreeOn_append : AgreeOn c f g (rs ++ rs') ↔ AgreeOn c f g rs ∧ AgreeOn c f g rs' := by
  simp [AgreeOn, or_imp, forall_and]

mutual

/-- **Only the targets of its references count for a value.** -/
theorem Value.linkedBy_congr : ∀ (v : Value), AgreeOn c f g v.references →
    v.linkedBy c f = v.linkedBy c g
  | .reference r, h => by
    have hsame : (c.objectKey? r).bind f = (c.objectKey? r).bind g := by
      cases hkey : c.objectKey? r with
      | none => rfl
      | some key => exact h r List.mem_cons_self key hkey
    simp only [Value.linkedBy, hsame]
  | .list items, h => congrArg Value.list (linkedItems_congr items h)
  | .dict entries, h => congrArg Value.dict (linkedEntries_congr entries h)
  | .document doc, h => congrArg Value.document (Document.linkedBy_congr doc h)
  | .null, _ => rfl
  | .bool _, _ => rfl
  | .int _, _ => rfl
  | .float _, _ => rfl
  | .string _, _ => rfl
  | .datetime _, _ => rfl
  | .linked _, _ => rfl
termination_by structural v => v

/-- The same for several values. -/
theorem linkedItems_congr : ∀ (vs : List Value), AgreeOn c f g (referencesOfItems vs) →
    linkedItems c f vs = linkedItems c g vs
  | [], _ => rfl
  | v :: vs, h =>
    have h := agreeOn_append.mp h
    congrArg₂ List.cons (v.linkedBy_congr h.1) (linkedItems_congr vs h.2)
termination_by structural vs => vs

/-- The same for several entries. -/
theorem linkedEntries_congr : ∀ (es : List (String × Value)),
    AgreeOn c f g (referencesOfEntries es) → linkedEntries c f es = linkedEntries c g es
  | [], _ => rfl
  | (k, v) :: rest, h =>
    have h := agreeOn_append.mp h
    congrArg₂ (fun v rest => (k, v) :: rest) (v.linkedBy_congr h.1) (linkedEntries_congr rest h.2)
termination_by structural es => es

/-- The same for a document. -/
theorem Document.linkedBy_congr : ∀ (d : Document), AgreeOn c f g d.references →
    d.linkedBy c f = d.linkedBy c g
  | ⟨type, values, dirty, raw⟩, h =>
    congrArg (fun values => Document.mk type values dirty raw) (linkedEntries_congr values h)
termination_by structural d => d

end

end

/-! ### States of linking -/

/-- One key leads to another by a reference in the document that was read for it. -/
def Leads (c : Catalog) (read : ObjectKey → Option Document) (key next : ObjectKey) : Prop :=
  ∃ doc, read key = some doc ∧ ∃ r ∈ doc.references, c.objectKey? r = some next

namespace Linking

/-- The completed document of a key. -/
def shown (s : Linking) (key : ObjectKey) : Option Document :=
  s.linked.lookup key

section

variable (c : Catalog) (start : List (ObjectKey × Fetched))

/-- The documents that were fetched. -/
def fetchedDoc (key : ObjectKey) : Option Document :=
  (start.lookup key).map (·.doc)

/-- A fetched document is completed as another one. Where hops may follow, each of its references is
replaced, unless it leads to a key that leads back to the document. -/
inductive Completed (s : Linking) (key : ObjectKey) (f : Fetched) : Document → Prop
  | last (hlast : f.hopsLeft = 0) : Completed s key f f.doc
  | further (hfurther : f.hopsLeft ≠ 0) (skipped : List ObjectKey)
      (hback : ∀ k ∈ skipped, ReflTransGen (Leads c (fetchedDoc start)) k key)
      (htaken : ∀ r ∈ f.doc.references, ∀ k, c.objectKey? r = some k → s.found.lookup k = none)
      (hshown : ∀ r ∈ f.doc.references, ∀ k, c.objectKey? r = some k → k ∉ skipped →
        (start.lookup k).isSome → (s.shown k).isSome) :
      Completed s key f (f.doc.linkedBy c fun k => if k ∈ skipped then none else s.shown k)

/-- What holds while the documents of a stack of keys are being completed: each fetched document is
still there, on the stack or completed, and only one of these. -/
structure Valid (stack : List ObjectKey) (s : Linking) : Prop where
  found : ∀ key f, s.found.lookup key = some f →
    start.lookup key = some f ∧ key ∉ stack ∧ s.shown key = none
  stacked : ∀ key ∈ stack, s.shown key = none
  fetched : ∀ key, (start.lookup key).isSome →
    (s.found.lookup key).isSome ∨ key ∈ stack ∨ (s.shown key).isSome
  completed : ∀ key doc, s.shown key = some doc →
    ∃ f, start.lookup key = some f ∧ Completed c start s key f doc

/-- Linking goes on from one state to another: completed documents stay, and fetched ones are only
taken out. -/
structure Goes (s s' : Linking) : Prop where
  shown : ∀ key doc, s.shown key = some doc → s'.shown key = some doc
  taken : ∀ key, s.found.lookup key = none → s'.found.lookup key = none
  length : s'.found.length ≤ s.found.length

end

variable {c : Catalog} {start : List (ObjectKey × Fetched)} {stack : List ObjectKey}
  {s s' s'' : Linking}

theorem Goes.refl (s : Linking) : Goes s s :=
  ⟨fun _ _ h => h, fun _ h => h, Nat.le_refl _⟩

theorem Goes.trans (h : Goes s s') (h' : Goes s' s'') : Goes s s'' :=
  ⟨fun key doc hdoc => h'.shown key doc (h.shown key doc hdoc),
    fun key hkey => h'.taken key (h.taken key hkey), Nat.le_trans h'.length h.length⟩

/-- At first everything is still there. -/
theorem valid_start (c : Catalog) (start : List (ObjectKey × Fetched)) :
    Valid c start [] ⟨start, []⟩ where
  found _ _ h := ⟨h, List.not_mem_nil, rfl⟩
  stacked _ h := absurd h List.not_mem_nil
  fetched _ h := .inl h
  completed _ _ h := nomatch h

/-- What was not fetched is never shown. -/
theorem Valid.shown_of_not_fetched (h : Valid c start stack s) {key : ObjectKey}
    (hkey : start.lookup key = none) : s.shown key = none := by
  cases hdoc : s.shown key with
  | none => rfl
  | some doc =>
    obtain ⟨f, hf, -⟩ := h.completed key doc hdoc
    rw [hkey] at hf
    cases hf

/-- What is shown for a key that was taken out stays as long as the stack is the same. -/
theorem Valid.shown_eq (h : Valid c start stack s) (h' : Valid c start stack s') (hgoes : Goes s s')
    {key : ObjectKey} (hkey : s.found.lookup key = none) : s.shown key = s'.shown key := by
  cases hdoc : s.shown key with
  | some doc => exact (hgoes.shown key doc hdoc).symm
  | none =>
    cases hstart : start.lookup key with
    | none => exact (h'.shown_of_not_fetched hstart).symm
    | some f =>
      rcases h.fetched key (by rw [hstart]; rfl) with hfound | hstack | hshown
      · rw [hkey] at hfound
        cases hfound
      · exact (h'.stacked key hstack).symm
      · rw [hdoc] at hshown
        cases hshown

/-- A completed document stays completed while linking goes on. -/
theorem Completed.mono {key : ObjectKey} {f : Fetched} {doc : Document}
    (h : Completed c start s key f doc) (hgoes : Goes s s')
    (hnone : ∀ k, start.lookup k = none → s.shown k = none ∧ s'.shown k = none) :
    Completed c start s' key f doc := by
  cases h with
  | last hlast => exact .last hlast
  | further hfurther skipped hback htaken hshown =>
    have hagree : AgreeOn c (fun k => if k ∈ skipped then none else s.shown k)
        (fun k => if k ∈ skipped then none else s'.shown k) f.doc.references := by
      intro r hr k hk
      by_cases hskip : k ∈ skipped
      · simp [hskip]
      · simp only [hskip, if_false]
        cases hstart : start.lookup k with
        | none => rw [(hnone k hstart).1, (hnone k hstart).2]
        | some g =>
          obtain ⟨doc, hdoc⟩ :=
            Option.isSome_iff_exists.mp (hshown r hr k hk hskip (by rw [hstart]; rfl))
          rw [hdoc, hgoes.shown k doc hdoc]
    rw [f.doc.linkedBy_congr hagree]
    refine .further hfurther skipped hback (fun r hr k hk => hgoes.taken k (htaken r hr k hk)) ?_
    intro r hr k hk hskip hstart
    obtain ⟨doc, hdoc⟩ := Option.isSome_iff_exists.mp (hshown r hr k hk hskip hstart)
    rw [hgoes.shown k doc hdoc]
    rfl

/-! ### Linking values -/

/-- Linking a key works in states with so many fetched documents left: it goes on to a state in
which the key was taken out, with what is shown for it then. The keys on the stack have to lead to
it. -/
def Works (c : Catalog) (start : List (ObjectKey × Fetched)) (levels : Nat) (link : Link) : Prop :=
  ∀ stack s key, Valid c start stack s → s.found.length ≤ levels →
    (∀ k ∈ stack, ReflTransGen (Leads c (fetchedDoc start)) k key) →
    Valid c start stack ((link key).run s).2 ∧ Goes s ((link key).run s).2 ∧
      ((link key).run s).2.found.lookup key = none ∧
      ((link key).run s).1 = ((link key).run s).2.shown key

/-- The keys on the stack lead to the targets of some references. -/
def LeadsToAll (c : Catalog) (start : List (ObjectKey × Fetched)) (stack : List ObjectKey)
    (references : List Reference) : Prop :=
  ∀ r ∈ references, ∀ key, c.objectKey? r = some key →
    ∀ k ∈ stack, ReflTransGen (Leads c (fetchedDoc start)) k key

/-- References were linked: all of their targets were taken out. -/
structure Links (c : Catalog) (start : List (ObjectKey × Fetched)) (stack : List ObjectKey)
    (references : List Reference) (s s' : Linking) : Prop where
  valid : Valid c start stack s'
  goes : Goes s s'
  taken : ∀ r ∈ references, ∀ key, c.objectKey? r = some key → s'.found.lookup key = none

theorem Links.nil (h : Valid c start stack s) : Links c start stack [] s s :=
  ⟨h, Goes.refl s, fun _ h => absurd h List.not_mem_nil⟩

theorem Links.append {rs rs' : List Reference} (h : Links c start stack rs s s')
    (h' : Links c start stack rs' s' s'') : Links c start stack (rs ++ rs') s s'' := by
  refine ⟨h'.valid, h.goes.trans h'.goes, fun r hr key hkey => ?_⟩
  rcases List.mem_append.mp hr with hr | hr
  · exact h'.goes.taken key (h.taken r hr key hkey)
  · exact h'.taken r hr key hkey

/-- What is shown for linked references stays while linking goes on. -/
theorem Links.agreeOn {rs rs' : List Reference} (h : Links c start stack rs s s')
    (h' : Links c start stack rs' s' s'') : AgreeOn c s'.shown s''.shown rs :=
  fun r hr key hkey => h.valid.shown_eq h'.valid h'.goes (h.taken r hr key hkey)

theorem leadsToAll_append {rs rs' : List Reference} :
    LeadsToAll c start stack (rs ++ rs') ↔
      LeadsToAll c start stack rs ∧ LeadsToAll c start stack rs' := by
  simp [LeadsToAll, or_imp, forall_and]

/-- A reference is linked by linking its target. -/
theorem attach_reference_run {link : Link} {r : Reference} {key : ObjectKey}
    (hkey : c.objectKey? r = some key) :
    ((Value.reference r).attach c link).run s =
      ((match ((link key).run s).1 with
        | some doc => .linked doc
        | none => .reference r), ((link key).run s).2) := by
  simp only [Value.attach, hkey, StateT.run_bind]
  rcases (link key).run s with ⟨_ | doc, t⟩ <;> rfl

section

variable {levels : Nat} {link : Link}

mutual

/-- **Linking a value replaces its references by what is shown for their targets afterwards.** -/
theorem attach_run (hlink : Works c start levels link) : ∀ (v : Value) (s : Linking),
    Valid c start stack s → s.found.length ≤ levels → LeadsToAll c start stack v.references →
    Links c start stack v.references s ((v.attach c link).run s).2 ∧
      ((v.attach c link).run s).1 = v.linkedBy c ((v.attach c link).run s).2.shown
  | .reference r, s, hvalid, hlevels, hleads => by
    cases hkey : c.objectKey? r with
    | none =>
      have hrun : ((Value.reference r).attach c link).run s = (.reference r, s) := by
        simp only [Value.attach, hkey]
        rfl
      rw [hrun]
      refine ⟨⟨hvalid, Goes.refl s, fun r' hr' key hkey' => ?_⟩, ?_⟩
      · rw [List.mem_singleton.mp hr', hkey] at hkey'
        cases hkey'
      · simp [Value.linkedBy, hkey]
    | some key =>
      obtain ⟨hvalid', hgoes, htaken, hshown⟩ :=
        hlink stack s key hvalid hlevels (hleads r List.mem_cons_self key hkey)
      rw [attach_reference_run hkey]
      refine ⟨⟨hvalid', hgoes, fun r' hr' key' hkey' => ?_⟩, ?_⟩
      · rw [List.mem_singleton.mp hr', hkey] at hkey'
        rwa [← Option.some.inj hkey']
      · simp [Value.linkedBy, hkey, ← hshown]
  | .list items, s, hvalid, hlevels, hleads => by
    obtain ⟨hlinks, hitems⟩ := attachItems_run hlink items s hvalid hlevels hleads
    exact ⟨hlinks, congrArg Value.list hitems⟩
  | .dict entries, s, hvalid, hlevels, hleads => by
    obtain ⟨hlinks, hentries⟩ := attachEntries_run hlink entries s hvalid hlevels hleads
    exact ⟨hlinks, congrArg Value.dict hentries⟩
  | .document doc, s, hvalid, hlevels, hleads => by
    obtain ⟨hlinks, hdoc⟩ := attachDocument_run hlink doc s hvalid hlevels hleads
    exact ⟨hlinks, congrArg Value.document hdoc⟩
  | .null, s, hvalid, _, _ => ⟨.nil hvalid, rfl⟩
  | .bool _, s, hvalid, _, _ => ⟨.nil hvalid, rfl⟩
  | .int _, s, hvalid, _, _ => ⟨.nil hvalid, rfl⟩
  | .float _, s, hvalid, _, _ => ⟨.nil hvalid, rfl⟩
  | .string _, s, hvalid, _, _ => ⟨.nil hvalid, rfl⟩
  | .datetime _, s, hvalid, _, _ => ⟨.nil hvalid, rfl⟩
  | .linked _, s, hvalid, _, _ => ⟨.nil hvalid, rfl⟩
termination_by structural v => v

/-- The same for several values. -/
theorem attachItems_run (hlink : Works c start levels link) : ∀ (vs : List Value) (s : Linking),
    Valid c start stack s → s.found.length ≤ levels →
    LeadsToAll c start stack (referencesOfItems vs) →
    Links c start stack (referencesOfItems vs) s ((attachItems c link vs).run s).2 ∧
      ((attachItems c link vs).run s).1 = linkedItems c ((attachItems c link vs).run s).2.shown vs
  | [], s, hvalid, _, _ => ⟨.nil hvalid, rfl⟩
  | v :: vs, s, hvalid, hlevels, hleads => by
    obtain ⟨hleadsV, hleadsVs⟩ := leadsToAll_append.mp hleads
    obtain ⟨hfirst, hv⟩ := attach_run hlink v s hvalid hlevels hleadsV
    obtain ⟨hrest, hvs⟩ := attachItems_run hlink vs ((v.attach c link).run s).2 hfirst.valid
      (Nat.le_trans hfirst.goes.length hlevels) hleadsVs
    refine ⟨hfirst.append hrest, ?_⟩
    exact congrArg₂ List.cons (hv.trans (v.linkedBy_congr (hfirst.agreeOn hrest))) hvs
termination_by structural vs => vs

/-- The same for several entries. -/
theorem attachEntries_run (hlink : Works c start levels link) :
    ∀ (es : List (String × Value)) (s : Linking), Valid c start stack s →
    s.found.length ≤ levels → LeadsToAll c start stack (referencesOfEntries es) →
    Links c start stack (referencesOfEntries es) s ((attachEntries c link es).run s).2 ∧
      ((attachEntries c link es).run s).1 =
        linkedEntries c ((attachEntries c link es).run s).2.shown es
  | [], s, hvalid, _, _ => ⟨.nil hvalid, rfl⟩
  | (k, v) :: rest, s, hvalid, hlevels, hleads => by
    obtain ⟨hleadsV, hleadsRest⟩ := leadsToAll_append.mp hleads
    obtain ⟨hfirst, hv⟩ := attach_run hlink v s hvalid hlevels hleadsV
    obtain ⟨hrest, hvs⟩ := attachEntries_run hlink rest ((v.attach c link).run s).2 hfirst.valid
      (Nat.le_trans hfirst.goes.length hlevels) hleadsRest
    refine ⟨hfirst.append hrest, ?_⟩
    exact congrArg₂ (fun v rest => (k, v) :: rest)
      (hv.trans (v.linkedBy_congr (hfirst.agreeOn hrest))) hvs
termination_by structural es => es

/-- The same for a document. -/
theorem attachDocument_run (hlink : Works c start levels link) : ∀ (d : Document) (s : Linking),
    Valid c start stack s → s.found.length ≤ levels → LeadsToAll c start stack d.references →
    Links c start stack d.references s ((d.attach c link).run s).2 ∧
      ((d.attach c link).run s).1 = d.linkedBy c ((d.attach c link).run s).2.shown
  | ⟨type, values, dirty, raw⟩, s, hvalid, hlevels, hleads => by
    obtain ⟨hlinks, hvalues⟩ := attachEntries_run hlink values s hvalid hlevels hleads
    exact ⟨hlinks, congrArg (fun values => Document.mk type values dirty raw) hvalues⟩
termination_by structural d => d

end

end

/-! ### Taking out and completing documents -/

/-- The state without the fetched document of a key. -/
def without (s : Linking) (key : ObjectKey) : Linking :=
  { s with found := s.found.filter fun e => e.1 != key }

/-- The state with the completed document of a key. -/
def completing (s : Linking) (key : ObjectKey) (doc : Document) : Linking :=
  { s with linked := (key, doc) :: s.linked }

section

variable {key : ObjectKey} {f : Fetched} {doc : Document}

theorem goes_without (s : Linking) (key : ObjectKey) : Goes s (s.without key) where
  shown _ _ h := h
  taken k hk := by
    by_cases hkey : k = key
    · subst hkey
      exact lookup_filter_self s.found k
    · exact (lookup_filter_of_ne hkey).trans hk
  length := List.length_filter_le _ _

/-- Where nothing is found under a key, nothing is left out. -/
theorem without_of_lookup_none (h : s.found.lookup key = none) : s.without key = s := by
  have hall : s.found.filter (fun e => e.1 != key) = s.found := by
    rw [List.filter_eq_self]
    intro e he
    have hne : (key == e.1) = false := by simpa using List.lookup_eq_none_iff.mp h e he
    exact bne_iff_ne.mpr (Ne.symm (beq_eq_false_iff_ne.mp hne))
  unfold without
  rw [hall]

/-- Where something is found under a key, fewer documents are left. -/
theorem length_without_lt (h : s.found.lookup key = some f) :
    (s.without key).found.length < s.found.length := by
  refine List.length_filter_lt_length_iff_exists.mpr ⟨(key, f), ?_, by simp⟩
  obtain ⟨front, rest, hsplit, -⟩ := List.lookup_eq_some_iff.mp h
  rw [hsplit]
  simp

/-- A fetched document that is taken out goes onto the stack. -/
theorem Valid.without (h : Valid c start stack s) (hf : s.found.lookup key = some f) :
    Valid c start (key :: stack) (s.without key) := by
  have hshown := (h.found key f hf).2.2
  refine ⟨fun k g hg => ?_, fun k hk => ?_, fun k hk => ?_, fun k doc hdoc => ?_⟩
  · have hne : k ≠ key := fun heq => by
      rw [heq, Linking.without, lookup_filter_self] at hg
      cases hg
    rw [Linking.without, lookup_filter_of_ne hne] at hg
    obtain ⟨hstart, hstack, hnone⟩ := h.found k g hg
    exact ⟨hstart, by simp [hne, hstack], hnone⟩
  · rcases List.mem_cons.mp hk with rfl | hk
    · exact hshown
    · exact h.stacked k hk
  · by_cases hkey : k = key
    · exact .inr (.inl (hkey ▸ List.mem_cons_self))
    · rw [Linking.without, lookup_filter_of_ne hkey]
      exact (h.fetched k hk).imp_right (Or.imp_left (List.mem_cons_of_mem key))
  · obtain ⟨g, hg, hcompleted⟩ := h.completed k doc hdoc
    have hnone := fun k (hk : start.lookup k = none) =>
      And.intro (h.shown_of_not_fetched hk) (h.shown_of_not_fetched hk)
    exact ⟨g, hg, hcompleted.mono (goes_without s key) hnone⟩

theorem shown_completing (s : Linking) (key : ObjectKey) (doc : Document) (k : ObjectKey) :
    (s.completing key doc).shown k = if k = key then some doc else s.shown k := by
  unfold shown completing
  by_cases hkey : k = key
  · simp [hkey]
  · simp [List.lookup_cons, hkey, beq_eq_false_iff_ne.mpr hkey]

theorem goes_completing (h : s.shown key = none) : Goes s (s.completing key doc) where
  shown k d hd := by
    have hne : k ≠ key := fun heq => by
      rw [heq, h] at hd
      cases hd
    rw [shown_completing, if_neg hne, hd]
  taken _ h := h
  length := Nat.le_refl _

/-- A document is completed when it leaves the stack. -/
theorem Valid.completing (h : Valid c start (key :: stack) s) (hkey : key ∉ stack)
    (hf : start.lookup key = some f) (hdoc : Completed c start (s.completing key doc) key f doc) :
    Valid c start stack (s.completing key doc) := by
  have hgoes : Goes s (s.completing key doc) := goes_completing (h.stacked key List.mem_cons_self)
  refine ⟨fun k g hg => ?_, fun k hk => ?_, fun k hk => ?_, fun k d hd => ?_⟩
  · obtain ⟨hstart, hstack, hnone⟩ := h.found k g hg
    obtain ⟨hne, hstack⟩ := List.ne_and_not_mem_of_not_mem_cons hstack
    exact ⟨hstart, hstack, by rw [shown_completing, if_neg hne, hnone]⟩
  · have hne : k ≠ key := fun heq => hkey (heq ▸ hk)
    rw [shown_completing, if_neg hne]
    exact h.stacked k (List.mem_cons_of_mem key hk)
  · rw [shown_completing]
    by_cases hne : k = key
    · exact .inr (.inr (by simp [hne]))
    · rw [if_neg hne]
      exact (h.fetched k hk).imp_right (Or.imp_left fun hmem => List.mem_of_ne_of_mem hne hmem)
  · rw [shown_completing] at hd
    by_cases hne : k = key
    · subst hne
      rw [if_pos rfl] at hd
      obtain rfl := Option.some.inj hd
      exact ⟨f, hf, hdoc⟩
    · rw [if_neg hne] at hd
      obtain ⟨g, hg, hcompleted⟩ := h.completed k d hd
      refine ⟨g, hg, hcompleted.mono hgoes fun k hk => ?_⟩
      have hne' : k ≠ key := fun heq => by
        rw [heq, hf] at hk
        cases hk
      rw [shown_completing, if_neg hne']
      exact ⟨h.shown_of_not_fetched hk, h.shown_of_not_fetched hk⟩

/-! ### Linking keys -/

theorem link_run_shown {levels : Nat} (h : s.shown key = some doc) :
    (link c (levels + 1) key).run s = (some doc, s) := by
  unfold shown at h
  simp only [link, StateT.run_bind, StateT.run_get, pure_bind]
  rw [h]
  rfl

theorem take_run (s : Linking) (key : ObjectKey) :
    (take key).run s = (s.found.lookup key, s.without key) :=
  rfl

theorem link_run_missing {levels : Nat} (hshown : s.shown key = none)
    (h : s.found.lookup key = none) : (link c (levels + 1) key).run s = (none, s.without key) := by
  unfold shown at hshown
  simp only [link, StateT.run_bind, StateT.run_get, pure_bind, hshown, take_run, h]
  rfl

theorem link_run_found {levels : Nat} (hshown : s.shown key = none)
    (h : s.found.lookup key = some f) :
    (link c (levels + 1) key).run s =
      let completed := if f.hopsLeft = 0 then (f.doc, s.without key)
        else (f.doc.attach c (link c levels)).run (s.without key)
      (some completed.1, completed.2.completing key completed.1) := by
  unfold shown at hshown
  simp only [link, StateT.run_bind, StateT.run_get, pure_bind, hshown, take_run, h]
  change StateT.run (if f.hopsLeft = 0 then _ else _) (s.without key) = _
  split <;> rfl

/-- A document whose references were linked while it was on the stack is completed. -/
theorem Links.completed (h : Links c start (key :: stack) f.doc.references s s')
    (hfurther : f.hopsLeft ≠ 0)
    (hback : ∀ k ∈ key :: stack, ReflTransGen (Leads c (fetchedDoc start)) k key)
    (hdoc : doc = f.doc.linkedBy c s'.shown) :
    Completed c start (s'.completing key doc) key f doc := by
  have hagree : AgreeOn c s'.shown
      (fun k => if k ∈ key :: stack then none else (s'.completing key doc).shown k)
      f.doc.references := by
    intro r hr k hk
    by_cases hstack : k ∈ key :: stack
    · simp only [hstack, if_true]
      exact h.valid.stacked k hstack
    · simp only [hstack, if_false]
      rw [shown_completing, if_neg (List.ne_of_not_mem_cons hstack)]
  have hcompleted : Completed c start (s'.completing key doc) key f
      (f.doc.linkedBy c fun k =>
        if k ∈ key :: stack then none else (s'.completing key doc).shown k) := by
    refine .further hfurther (key :: stack) hback (fun r hr k hk => h.taken r hr k hk) ?_
    intro r hr k hk hstack hstart
    rw [shown_completing, if_neg (List.ne_of_not_mem_cons hstack)]
    rcases h.valid.fetched k hstart with hfound | hmem | hshown
    · rw [h.taken r hr k hk] at hfound
      cases hfound
    · exact absurd hmem hstack
    · exact hshown
  rwa [← f.doc.linkedBy_congr hagree, ← hdoc] at hcompleted

/-- **As many levels are enough as there are fetched documents left.** -/
theorem works_link (c : Catalog) (start : List (ObjectKey × Fetched)) (levels : Nat) :
    Works c start levels (link c levels) := by
  induction levels with
  | zero =>
    intro stack s key hvalid hlevels _
    have hrun : (link c 0 key).run s = (s.shown key, s) := rfl
    have hnone : s.found = [] := List.eq_nil_of_length_eq_zero (Nat.le_zero.mp hlevels)
    rw [hrun]
    exact ⟨hvalid, Goes.refl s, by rw [hnone]; rfl, rfl⟩
  | succ levels ih =>
    intro stack s key hvalid hlevels hback
    cases hshown : s.shown key with
    | some doc =>
      rw [link_run_shown hshown]
      refine ⟨hvalid, Goes.refl s, ?_, hshown.symm⟩
      cases hf : s.found.lookup key with
      | none => rfl
      | some f =>
        rw [(hvalid.found key f hf).2.2] at hshown
        cases hshown
    | none =>
      cases hf : s.found.lookup key with
      | none =>
        rw [link_run_missing hshown hf, without_of_lookup_none hf]
        exact ⟨hvalid, Goes.refl s, hf, hshown.symm⟩
      | some f =>
        obtain ⟨hstart, hstack, -⟩ := hvalid.found key f hf
        have hpushed := hvalid.without hf
        rw [link_run_found hshown hf]
        by_cases hlast : f.hopsLeft = 0
        · have hdone := hpushed.completing hstack hstart (.last hlast)
          simp only [hlast, if_true]
          refine ⟨hdone, (goes_without s key).trans (goes_completing hshown), ?_, ?_⟩
          · exact lookup_filter_self s.found key
          · rw [shown_completing, if_pos rfl]
        · simp only [hlast, if_false]
          have hlevels' : (s.without key).found.length ≤ levels := by
            have := length_without_lt hf
            omega
          have hread : fetchedDoc start key = some f.doc := by simp [fetchedDoc, hstart]
          have hback' : ∀ k ∈ key :: stack, ReflTransGen (Leads c (fetchedDoc start)) k key :=
            List.forall_mem_cons.mpr ⟨.refl, hback⟩
          have hleads : LeadsToAll c start (key :: stack) f.doc.references :=
            fun r hr next hnext k hk => (hback' k hk).tail ⟨f.doc, hread, r, hr, hnext⟩
          obtain ⟨hlinks, hdoc⟩ :=
            attachDocument_run ih f.doc (s.without key) hpushed hlevels' hleads
          generalize (f.doc.attach c (link c levels)).run (s.without key) = completed
            at hlinks hdoc ⊢
          have hnone := hlinks.valid.stacked key List.mem_cons_self
          refine ⟨hlinks.valid.completing hstack hstart (hlinks.completed hlast hback' hdoc),
            (goes_without s key).trans (hlinks.goes.trans (goes_completing hnone)), ?_, ?_⟩
          · exact hlinks.goes.taken key (lookup_filter_self s.found key)
          · rw [shown_completing, if_pos rfl]

end

end Linking

/-- **Linking replaces the references of some values** by what is shown at the end, when no document
is being completed any more. -/
theorem Resolution.attachAll_items (c : Catalog) (state : Resolution) (values : List Value) :
    ∃ final : Linking,
      Linking.Links c state.found [] (referencesOfItems values) ⟨state.found, []⟩ final ∧
        state.attachAll c (fun link => attachItems c link values) =
          linkedItems c final.shown values := by
  have hwork := Linking.works_link c state.found state.found.length
  obtain ⟨hlinks, hvalues⟩ := Linking.attachItems_run hwork values ⟨state.found, []⟩
    (Linking.valid_start c state.found) (Nat.le_refl _)
    fun _ _ _ _ _ hk => absurd hk List.not_mem_nil
  exact ⟨_, hlinks, hvalues⟩

end DocumentMapper
