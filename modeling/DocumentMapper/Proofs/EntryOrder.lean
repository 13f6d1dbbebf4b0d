import DocumentMapper.Proofs.EntryEffects

/-!
# Entries of an update in another order

Entries whose paths are apart do not get in each other's way. Nor do a `$pull` and an entry below
its path: the `$pull` needs an array or nothing there, so the entry below can succeed only if it has
nothing to do. A sequence of such entries is decided on the document before it: every entry looks at
what stands there, and the edits that they make can be made in any order.

## Main results

* `UpdateEntry.current_of_carryOut`: what an entry looks at is not changed by one that agrees with
  it;
* `ready_of_actAll`, `actAll_of_ready`: entries that agree succeed exactly when each of them is
  ready on the document before and the edits that they make can be made;
* `actAll_perm`: they succeed in any order, and come to equal documents;
* `actAll_perm_of_puts`: so do entries that set and remove, at any paths that are apart.
-/

namespace DocumentMapper

open Text

/-- What an operator on arrays takes for one: an array, or nothing. -/
def Opens (current : Option Json) : Prop :=
  current = none ∨ ∃ items, current = some (.array items)

namespace UpdateEntry

/-- An entry that can be reordered: its path leads through entries of objects, it does not rename,
and its operand is well formed. -/
structure Sound (e : UpdateEntry) : Prop where
  named : Named e.segments
  keepsName : e.operator ≠ "$rename"
  operand : e.operand.WellFormed

/-- An entry removes items from an array at a path above that of another entry. -/
def PullsAbove (e f : UpdateEntry) : Prop :=
  e.operator = "$pull" ∧ ∃ rest, rest ≠ [] ∧ f.segments = e.segments ++ rest

/-- Two entries agree: their paths are apart, or one removes items above the other. -/
def Agrees (e f : UpdateEntry) : Prop :=
  Apart e.segments f.segments ∨ e.PullsAbove f ∨ f.PullsAbove e

/-- Agreeing works both ways. -/
theorem Agrees.symm {e f : UpdateEntry} (h : e.Agrees f) : f.Agrees e := by
  rcases h with h | h | h
  · exact .inl h.symm
  · exact .inr (.inr h)
  · exact .inr (.inl h)

/-- An entry is ready on a document: it has an effect, and keeps what there is where one of the
given entries removes items above. -/
def Ready (inserting : Bool) (whole : List UpdateEntry) (doc : Object) (e : UpdateEntry) : Prop :=
  ∃ x, e.effect? inserting (e.current doc) = some x ∧ ∀ f ∈ whole, f.PullsAbove e → x = .keep

/-- The edits that an entry makes of a document. -/
def edits (inserting : Bool) (doc : Object) (e : UpdateEntry) : List (List String × Edit) :=
  match e.effect? inserting (e.current doc) with
  | some x => x.edits e.segments
  | none => []

variable {inserting : Bool} {doc doc' : Object} {e f : UpdateEntry} {x : Effect}

/-! ### Effects -/

/-- Removing items needs an array or nothing, and leaves an array. -/
theorem effect?_pull (he : e.operator = "$pull") {current : Option Json}
    (hx : e.effect? inserting current = some x) :
    Opens current ∧ ∃ kept, x = .write (.array kept) := by
  obtain ⟨op, path, operand⟩ := e
  obtain rfl : op = "$pull" := he
  obtain ⟨items, hitems, hx⟩ := Option.bind_eq_some_iff.mp hx
  obtain ⟨kept, -, rfl⟩ := Option.map_eq_some_iff.mp hx
  refine ⟨?_, kept, rfl⟩
  cases current with
  | none => exact .inl rfl
  | some found => cases found <;> first | exact .inr ⟨_, rfl⟩ | cases hitems

/-- Inserting values writes an array. -/
theorem pushEffect?_ne_remove {unique : Bool} {operand : Json} {current : Option Json} :
    pushEffect? unique operand current ≠ some .remove := by
  unfold pushEffect?
  split <;> simp

/-- Where there is nothing, nothing is removed. -/
theorem effect?_none_ne_remove : e.effect? inserting none ≠ some .remove := by
  unfold effect?
  split
  · simp
  · cases inserting <;> simp
  · simp [removalEffect]
  · simp
  · simp
  · simp [orderedEffect]
  · simp [orderedEffect]
  · exact pushEffect?_ne_remove
  · exact pushEffect?_ne_remove
  · simp [itemsOf?]
  · simp [itemsOf?, Option.bind_eq_some_iff]
  · simp [itemsOf?]
  · simp

/-! ### Two entries -/

/-- Nothing stands below an array, nor below nothing. -/
theorem PullsAbove.current_eq_none (h : f.PullsAbove e) (he : Named e.segments)
    (hopens : Opens (f.current doc)) : e.current doc = none := by
  obtain ⟨-, rest, hrest, hsegments⟩ := h
  obtain ⟨s, rest, rfl⟩ := List.exists_cons_of_ne_nil hrest
  have hs : position? s = none := he s (by rw [hsegments]; simp)
  have hcurrent : e.current doc = (f.current doc).bind (Json.getPath? (s :: rest)) := by
    unfold current Object.getPath?
    rw [← Json.getPath?_append]
    exact congrArg (fun p => (Json.object doc).getPath? p) hsegments
  rw [hcurrent]
  rcases hopens with hnone | ⟨items, hitems⟩
  · simp [hnone]
  · simp [hitems, Json.getPath?, Json.child?, hs]

/-- **An entry that leaves an array or nothing above it has nothing to do.** -/
theorem PullsAbove.eq_keep_of_opens (h : f.PullsAbove e) (he : Named e.segments)
    (hx : e.effect? inserting (e.current doc) = some x) (hcarry : x.carryOut e.path doc = .ok doc')
    (hopens : Opens (f.current doc')) : x = .keep := by
  obtain ⟨-, rest, hrest, hsegments⟩ := h
  -- Whatever it writes or removes, there is an object above.
  have hobject : ¬ ∃ es, f.current doc' = some (.object es) := by
    rintro ⟨es, hes⟩
    rw [hes] at hopens
    rcases hopens with hnone | ⟨items, hitems⟩
    · cases hnone
    · cases hitems
  cases x with
  | keep => rfl
  | write v =>
    exact absurd (Object.getPath?_setPath_above he hsegments hrest hcarry).1 hobject
  | remove =>
    cases hcarry
    have hfound : e.current doc ≠ none := by
      intro hnone
      rw [hnone] at hx
      exact effect?_none_ne_remove hx
    exact absurd (Object.getPath?_removePath_above he hsegments hrest hfound) hobject

/-- **An entry below an array has nothing to do.** -/
theorem PullsAbove.eq_keep_of_array (h : f.PullsAbove e) (he : Named e.segments)
    (hx : e.effect? inserting (e.current doc) = some x) (hcarry : x.carryOut e.path doc = .ok doc')
    {items : List Json} (harray : f.current doc = some (.array items)) : x = .keep := by
  have hnone := h.current_eq_none he (.inr ⟨items, harray⟩)
  obtain ⟨-, rest, hrest, hsegments⟩ := h
  cases x with
  | keep => rfl
  | write v =>
    exact absurd harray ((Object.getPath?_setPath_above he hsegments hrest hcarry).2 items)
  | remove =>
    rw [hnone] at hx
    exact absurd hx effect?_none_ne_remove

/-- What stands at a path that is apart stays the same. -/
theorem current_of_apart (he : Named e.segments) (h : Apart f.segments e.segments)
    (hcarry : x.carryOut e.path doc = .ok doc') : f.current doc' = f.current doc := by
  cases x with
  | keep =>
    cases hcarry
    rfl
  | write v => exact Object.getPath?_setPath_of_apart he h hcarry
  | remove =>
    cases hcarry
    exact Object.getPath?_removePath_of_apart he h

/-- **What an entry looks at is not changed by one that agrees with it**, if that one has nothing to
do where it is below. -/
theorem current_of_carryOut (h : e.Agrees f) (he : Named e.segments) (hf : Named f.segments)
    (hx : e.effect? inserting (e.current doc) = some x) (hcarry : x.carryOut e.path doc = .ok doc')
    (hbelow : f.PullsAbove e → x = .keep) : f.current doc' = f.current doc := by
  rcases h with hapart | habove | hbelow'
  · exact current_of_apart he hapart.symm hcarry
  · -- There was nothing below the array, and there is nothing below the new one.
    obtain ⟨hopens, kept, rfl⟩ := effect?_pull habove.1 hx
    have harray : e.current doc' = some (.array kept) := Object.getPath?_setPath_self he hcarry
    rw [habove.current_eq_none hf hopens, habove.current_eq_none hf (.inr ⟨kept, harray⟩)]
  · obtain rfl := hbelow hbelow'
    cases hcarry
    rfl

/-- An array stays where items were removed from it. -/
theorem array_of_carryOut (h : f.Agrees e) (he : Named e.segments) (hf : Named f.segments)
    (hx : e.effect? inserting (e.current doc) = some x) (hcarry : x.carryOut e.path doc = .ok doc')
    {items : List Json} (harray : f.current doc = some (.array items)) :
    f.current doc' = some (.array items) := by
  have hbelow : f.PullsAbove e → x = .keep := fun h => h.eq_keep_of_array he hx hcarry harray
  rw [current_of_carryOut h.symm he hf hx hcarry hbelow, harray]

/-- An entry is not above itself. -/
theorem not_pullsAbove_self (e : UpdateEntry) : ¬ e.PullsAbove e := by
  rintro ⟨-, rest, hrest, hsegments⟩
  exact hrest (List.self_eq_append_right.mp hsegments)

/-- Applying an entry keeps a document well formed. -/
theorem wellFormed_act (he : e.Sound) (hdoc : doc.WellFormed) :
    (e.act inserting doc).doc.WellFormed :=
  kept_wellFormed.applyOperator hdoc he.operand fun _ => ⟨trivial, fun _ _ _ => trivial⟩

end UpdateEntry

open UpdateEntry

/-! ### Sequences of entries -/

/-- Applies several entries, one after the other. -/
def actAll (inserting : Bool) : List UpdateEntry → Object → Applied
  | [], doc => ⟨doc, none⟩
  | e :: rest, doc => (e.act inserting doc).andThen (actAll inserting rest)

/-- The edits that several entries make, as they are decided on one document. -/
def editsOf (inserting : Bool) (doc : Object) (entries : List UpdateEntry) :
    List (List String × Edit) :=
  entries.flatMap (edits inserting doc)

section

variable {inserting : Bool} {doc doc' : Object} {e : UpdateEntry} {whole rest : List UpdateEntry}

/-- What goes on succeeds exactly when both parts do. -/
theorem andThen_eq_iff {a : Applied} {next : Object → Applied} :
    a.andThen next = ⟨doc', none⟩ ↔ ∃ doc, a = ⟨doc, none⟩ ∧ next doc = ⟨doc', none⟩ := by
  obtain ⟨doc, failure⟩ := a
  cases failure with
  | none => simp [Applied.andThen]
  | some cause => simp [Applied.andThen]

/-- Entries are decided alike on documents that are the same to them. -/
theorem ready_congr (h : e.current doc' = e.current doc) :
    e.Ready inserting whole doc' ↔ e.Ready inserting whole doc := by
  unfold Ready
  rw [h]

theorem editsOf_congr (h : ∀ e ∈ rest, e.current doc' = e.current doc) :
    editsOf inserting doc' rest = editsOf inserting doc rest := by
  refine List.flatMap_congr fun e he => ?_
  unfold edits
  rw [h e he]

/-- The edits of an entry are those of its effect. -/
theorem edits_of_effect? {x : Effect} (hx : e.effect? inserting (e.current doc) = some x) :
    e.edits inserting doc = x.edits e.segments := by
  unfold edits
  rw [hx]

/-- **Entries that succeed were ready on the document before**, and have made the edits that are
decided there. Items were removed before where an array is left. -/
theorem ready_of_actAll (done : List UpdateEntry) (hagree : (done ++ rest).Pairwise Agrees)
    (hnamed : ∀ e ∈ done, Named e.segments) (hsound : ∀ e ∈ rest, e.Sound)
    (harrays : ∀ f ∈ done, f.operator = "$pull" → ∃ items, f.current doc = some (.array items))
    (hdoc : doc.WellFormed) (h : actAll inserting rest doc = ⟨doc', none⟩) :
    doc'.WellFormed ∧ (∀ e ∈ rest, e.Ready inserting (done ++ rest) doc) ∧
      runEdits (editsOf inserting doc rest) (some doc.content) = some (some doc'.content) := by
  induction rest generalizing done doc with
  | nil =>
    cases h
    exact ⟨hdoc, by simp, rfl⟩
  | cons e rest ih =>
    obtain ⟨he, hsound⟩ := List.forall_mem_cons.mp hsound
    obtain ⟨doc₁, hact, hrest⟩ := andThen_eq_iff.mp h
    obtain ⟨x, hx, hcarry⟩ := (act_eq_iff he.named he.keepsName).mp hact
    have hdoc₁ : doc₁.WellFormed := by
      have hwf : (e.act inserting doc).doc.WellFormed := wellFormed_act he hdoc
      rwa [hact] at hwf
    obtain ⟨-, hagreeRest, hagreeDone⟩ := List.pairwise_append.mp hagree
    have harrays₁ : ∀ f ∈ done ++ [e], f.operator = "$pull" →
        ∃ items, f.current doc₁ = some (.array items) := by
      intro f hf hpull
      rcases List.mem_append.mp hf with hf | hf
      · obtain ⟨items, harray⟩ := harrays f hf hpull
        have hagrees := hagreeDone f hf e List.mem_cons_self
        exact ⟨items, array_of_carryOut hagrees he.named (hnamed f hf) hx hcarry harray⟩
      · obtain rfl := List.mem_singleton.mp hf
        obtain ⟨-, kept, rfl⟩ := effect?_pull hpull hx
        exact ⟨kept, Object.getPath?_setPath_self he.named hcarry⟩
    have hassoc : done ++ [e] ++ rest = done ++ e :: rest := by simp
    have hnamed₁ : ∀ f ∈ done ++ [e], Named f.segments := by
      intro f hf
      rcases List.mem_append.mp hf with hf | hf
      · exact hnamed f hf
      · exact (List.mem_singleton.mp hf) ▸ he.named
    obtain ⟨hdoc', hready, hrun⟩ :=
      ih (done ++ [e]) (hassoc ▸ hagree) hnamed₁ hsound harrays₁ hdoc₁ hrest
    rw [hassoc] at hready
    have hkeep : ∀ f ∈ done ++ e :: rest, f.PullsAbove e → x = .keep := by
      intro f hf habove
      rcases List.mem_append.mp hf with hf | hf
      · obtain ⟨items, harray⟩ := harrays f hf habove.1
        exact habove.eq_keep_of_array he.named hx hcarry harray
      · rcases List.mem_cons.mp hf with rfl | hf
        · exact absurd habove (not_pullsAbove_self f)
        · obtain ⟨y, hy, -⟩ := hready f hf
          exact habove.eq_keep_of_opens he.named hx hcarry (effect?_pull habove.1 hy).1
    have hsame : ∀ f ∈ rest, f.current doc₁ = f.current doc := by
      intro f hf
      have hagrees := (List.pairwise_cons.mp hagreeRest).1 f hf
      refine current_of_carryOut hagrees he.named (hsound f hf).named hx hcarry (hkeep f ?_)
      exact List.mem_append_right _ (List.mem_cons_of_mem _ hf)
    refine ⟨hdoc', fun f hf => ?_, ?_⟩
    · rcases List.mem_cons.mp hf with rfl | hf
      · exact ⟨x, hx, hkeep⟩
      · exact (ready_congr (hsame f hf)).mp (hready f hf)
    · have hfirst := x.content_carryOut e.path hdoc
      rw [hcarry] at hfirst
      rw [editsOf, List.flatMap_cons, runEdits_append, edits_of_effect? hx]
      rw [editsOf_congr hsame] at hrun
      exact Option.bind_eq_some_iff.mpr ⟨_, hfirst.symm, hrun⟩

/-- **Entries that are ready on a document succeed**, if the edits that are decided there can be
made. -/
theorem actAll_of_ready (hwhole : ∀ e ∈ rest, e ∈ whole) (hagree : rest.Pairwise Agrees)
    (hsound : ∀ e ∈ rest, e.Sound) (hdoc : doc.WellFormed)
    (hready : ∀ e ∈ rest, e.Ready inserting whole doc) {c : Option Content}
    (hrun : runEdits (editsOf inserting doc rest) (some doc.content) = some c) :
    ∃ doc', actAll inserting rest doc = ⟨doc', none⟩ ∧ doc'.WellFormed ∧ c = some doc'.content := by
  induction rest generalizing doc with
  | nil =>
    cases hrun
    exact ⟨doc, rfl, hdoc, rfl⟩
  | cons e rest ih =>
    obtain ⟨he, hsound⟩ := List.forall_mem_cons.mp hsound
    obtain ⟨hagreeFirst, hagree⟩ := List.pairwise_cons.mp hagree
    obtain ⟨⟨x, hx, hkeep⟩, hready⟩ := List.forall_mem_cons.mp hready
    obtain ⟨hmem, hwhole⟩ := List.forall_mem_cons.mp hwhole
    rw [editsOf, List.flatMap_cons, runEdits_append, edits_of_effect? hx] at hrun
    obtain ⟨part, hfirst, hrun⟩ := Option.bind_eq_some_iff.mp hrun
    rw [segments, ← x.content_carryOut e.path hdoc] at hfirst
    obtain ⟨doc₁, hcarry, rfl⟩ := Option.map_eq_some_iff.mp hfirst
    have hcarry := toOption_eq_some.mp hcarry
    have hact := (act_eq_iff he.named he.keepsName).mpr ⟨x, hx, hcarry⟩
    have hdoc₁ : doc₁.WellFormed := by
      have hwf : (e.act inserting doc).doc.WellFormed := wellFormed_act he hdoc
      rwa [hact] at hwf
    have hsame : ∀ f ∈ rest, f.current doc₁ = f.current doc := by
      intro f hf
      exact current_of_carryOut (hagreeFirst f hf) he.named (hsound f hf).named hx hcarry
        (hkeep f (hwhole f hf))
    have hready₁ : ∀ f ∈ rest, f.Ready inserting whole doc₁ := fun f hf =>
      (ready_congr (hsame f hf)).mpr (hready f hf)
    have hrun₁ : runEdits (editsOf inserting doc₁ rest) (some doc₁.content) = some c := by
      rw [editsOf_congr hsame]
      exact hrun
    obtain ⟨doc', hrest, hdoc', hc⟩ := ih hwhole hagree hsound hdoc₁ hready₁ hrun₁
    exact ⟨doc', andThen_eq_iff.mpr ⟨doc₁, hact, hrest⟩, hdoc', hc⟩

/-- The edits of entries that agree and are ready are made at paths that are apart. -/
theorem apart_editsOf (hagree : rest.Pairwise Agrees)
    (hready : ∀ e ∈ rest, e.Ready inserting rest doc) :
    (editsOf inserting doc rest).Pairwise fun a b => Apart a.1 b.1 := by
  have hnone : ∀ e ∈ rest, ∀ f ∈ rest, f.PullsAbove e → e.edits inserting doc = [] := by
    intro e he f hf habove
    obtain ⟨x, hx, hkeep⟩ := hready e he
    rw [edits_of_effect? hx, hkeep f hf habove]
    rfl
  have hpath : ∀ e ∈ rest, ∀ a ∈ e.edits inserting doc, a.1 = e.segments := by
    intro e he a ha
    obtain ⟨x, hx, -⟩ := hready e he
    rw [edits_of_effect? hx] at ha
    exact Effect.fst_of_mem_edits ha
  refine List.pairwise_flatMap.mpr ⟨fun e he => ?_, hagree.imp_of_mem ?_⟩
  · obtain ⟨x, hx, -⟩ := hready e he
    rw [edits_of_effect? hx]
    cases x <;> simp [Effect.edits]
  · intro e f he hf hagrees a ha b hb
    rcases hagrees with hapart | habove | habove
    · rwa [hpath e he a ha, hpath f hf b hb]
    · rw [hnone f hf e he habove] at hb
      cases hb
    · rw [hnone e he f hf habove] at ha
      cases ha

/-- Edits at paths that are apart can be made in any order. -/
theorem runEdits_perm {edits others : List (List String × Edit)} (hperm : edits.Perm others)
    (hapart : edits.Pairwise fun a b => Apart a.1 b.1) (part : Option Content) :
    runEdits edits part = runEdits others part := by
  induction hperm generalizing part with
  | nil => rfl
  | cons a hperm ih =>
    exact congrArg _ (funext (ih (List.pairwise_cons.mp hapart).2))
  | swap a b rest =>
    obtain ⟨hfirst, -⟩ := List.pairwise_cons.mp hapart
    have hcomm := Edit.at_comm b.2 a.2 (hfirst a List.mem_cons_self) part
    simp only [runEdits, ← Option.bind_assoc, hcomm]
  | trans hperm _ ih ih' =>
    rw [ih hapart, ih' (hperm.pairwise hapart fun h => h.symm)]

/-- **Entries that agree succeed in any order, and come to equal documents.** -/
theorem actAll_perm {others : List UpdateEntry} (hperm : rest.Perm others)
    (hagree : rest.Pairwise Agrees) (hsound : ∀ e ∈ rest, e.Sound) (hdoc : doc.WellFormed)
    (h : actAll inserting rest doc = ⟨doc', none⟩) :
    ∃ doc'', actAll inserting others doc = ⟨doc'', none⟩ ∧ doc''.equal doc' = true := by
  obtain ⟨hdoc', hready, hrun⟩ := ready_of_actAll [] hagree (by simp) hsound (by simp) hdoc h
  rw [List.nil_append] at hready
  have hother := runEdits_perm (hperm.flatMap_right (edits inserting doc))
    (apart_editsOf hagree hready) (some doc.content)
  have hrun' := hother.symm.trans hrun
  have hmem : ∀ e ∈ others, e ∈ rest := fun e he => hperm.mem_iff.mpr he
  obtain ⟨doc'', hact, hdoc'', hcontent⟩ := actAll_of_ready hmem
    (hperm.pairwise hagree fun h => h.symm) (fun e he => hsound e (hmem e he)) hdoc
    (fun e he => hready e (hmem e he)) hrun'
  refine ⟨doc'', hact, (Object.equal_iff_content hdoc'' hdoc').mpr ?_⟩
  exact (Option.some.inj hcontent).symm

end

/-! ### Entries that set and remove -/

namespace UpdateEntry

/-- An entry that sets a path to a well-formed value, or removes it. -/
def Puts (e : UpdateEntry) : Prop :=
  e.operator = "$set" ∧ e.operand.WellFormed ∨ e.operator = "$unset"

/-- The effect of such an entry, whatever stands at its path. -/
def putting (e : UpdateEntry) : Effect :=
  if e.operator = "$set" then .write e.operand else .remove

/-- The edit that such an entry makes. -/
def putEdits (e : UpdateEntry) : List (List String × Edit) :=
  e.putting.edits e.segments

variable {e : UpdateEntry} {inserting : Bool} {doc doc' : Object}

/-- Setting and removing depend on nothing that stands at the path. -/
theorem Puts.act (h : e.Puts) :
    e.act inserting doc = .ofExcept doc (e.putting.carryOut e.path doc) := by
  obtain ⟨operator, path, operand⟩ := e
  rcases h with ⟨hset, -⟩ | hunset
  · obtain rfl : operator = "$set" := hset
    rfl
  · obtain rfl : operator = "$unset" := hunset
    rfl

/-- Documents stay well formed. -/
theorem Puts.wellFormed (h : e.Puts) (hdoc : doc.WellFormed)
    (hcarry : e.putting.carryOut e.path doc = .ok doc') : doc'.WellFormed := by
  rcases h with ⟨hset, hwf⟩ | hunset
  · rw [putting, if_pos hset] at hcarry
    exact Object.wellFormed_setPath hdoc hwf hcarry
  · rw [putting, if_neg (by rw [hunset]; decide)] at hcarry
    cases hcarry
    exact Object.wellFormed_removePath hdoc e.path

end UpdateEntry

section

variable {inserting : Bool} {doc doc' : Object} {entries others : List UpdateEntry}

/-- **Entries that set and remove succeed exactly when their edits can be made**, and then have made
them. -/
theorem actAll_of_puts (inserting : Bool) (hputs : ∀ e ∈ entries, e.Puts)
    (hdoc : doc.WellFormed) :
    (∃ doc', actAll inserting entries doc = ⟨doc', none⟩ ∧ doc'.WellFormed ∧
        runEdits (entries.flatMap putEdits) (some doc.content) = some (some doc'.content)) ∨
      (actAll inserting entries doc).failure ≠ none ∧
        runEdits (entries.flatMap putEdits) (some doc.content) = none := by
  induction entries generalizing doc with
  | nil => exact .inl ⟨doc, rfl, hdoc, rfl⟩
  | cons e rest ih =>
    obtain ⟨he, hrest⟩ := List.forall_mem_cons.mp hputs
    have hcontent := e.putting.content_carryOut e.path hdoc
    rw [List.flatMap_cons, runEdits_append, actAll, he.act]
    cases hcarry : e.putting.carryOut e.path doc with
    | error cause =>
      rw [hcarry] at hcontent
      refine .inr ⟨Option.some_ne_none cause, ?_⟩
      rw [putEdits, UpdateEntry.segments, ← hcontent]
      rfl
    | ok next =>
      rw [hcarry] at hcontent
      have hmade : runEdits e.putEdits (some doc.content) = some (some next.content) := hcontent.symm
      rw [hmade]
      exact ih hrest (he.wellFormed hdoc hcarry)

/-- **Entries that set and remove at paths that are apart come to the same in any order.** -/
theorem actAll_perm_of_puts (hperm : entries.Perm others) (hputs : ∀ e ∈ entries, e.Puts)
    (hapart : entries.Pairwise fun a b => Apart a.segments b.segments) (hdoc : doc.WellFormed)
    (h : actAll inserting entries doc = ⟨doc', none⟩) :
    ∃ doc'', actAll inserting others doc = ⟨doc'', none⟩ ∧ doc''.equal doc' = true := by
  have hedits : (entries.flatMap putEdits).Pairwise fun a b => Apart a.1 b.1 := by
    refine List.pairwise_flatMap.mpr ⟨fun e _ => ?_, hapart.imp fun hab a ha b hb => ?_⟩
    · unfold putEdits
      cases e.putting with
      | keep => exact .nil
      | write v => exact List.pairwise_singleton _ _
      | remove => exact List.pairwise_singleton _ _
    · rwa [Effect.fst_of_mem_edits ha, Effect.fst_of_mem_edits hb]
  have hsame := runEdits_perm (hperm.flatMap_right putEdits) hedits (some doc.content)
  have hothers : ∀ e ∈ others, e.Puts := fun e he => hputs e (hperm.mem_iff.mpr he)
  rcases actAll_of_puts inserting hputs hdoc with ⟨made, hact, hmade, hrun⟩ | ⟨hfailure, -⟩
  · obtain rfl : made = doc' := congrArg Applied.doc (hact.symm.trans h)
    rcases actAll_of_puts inserting hothers hdoc with ⟨doc'', hact', hdoc'', hrun'⟩ | ⟨-, hrun'⟩
    · refine ⟨doc'', hact', (Object.equal_iff_content hdoc'' hmade).mpr ?_⟩
      exact (Option.some.inj (Option.some.inj (hrun.symm.trans (hsame.trans hrun')))).symm
    · rw [← hsame, hrun] at hrun'
      cases hrun'
  · rw [h] at hfailure
    exact absurd rfl hfailure

end

end DocumentMapper
