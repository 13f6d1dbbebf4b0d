import DocumentMapper.Proofs.ArrayUpdates

/-!
# Paths through objects

Two paths overlap if one of them begins the other one. A path whose segments all name entries of
objects leads to the same value as long as nothing is written or removed that overlaps it, whatever
else happens to the document and whether the segments are names or positions.

## Main results

* `EntryAt.setSegments`, `EntryAt.withoutPath`: writing and removing beside a path leave what stands
  there;
* `Written.entryAt`, `Creatable.of_written`: what is written stands where it was written, and another
  path that could be created still can.
-/

namespace DocumentMapper

/-! ### Paths that overlap -/

/-- One of two paths begins the other one. -/
def Overlap (p q : List String) : Prop :=
  p <+: q ∨ q <+: p

instance (p q : List String) : Decidable (Overlap p q) :=
  inferInstanceAs (Decidable (p <+: q ∨ q <+: p))

theorem Overlap.symm {p q : List String} (h : Overlap p q) : Overlap q p :=
  Or.symm h

theorem overlap_cons_iff {s : String} {p q : List String} :
    Overlap (s :: p) (s :: q) ↔ Overlap p q := by
  simp [Overlap]

/-- A path that does not overlap another one has a first segment. -/
theorem exists_cons_of_not_overlap {p q : List String} (h : ¬ Overlap p q) :
    ∃ s rest, q = s :: rest :=
  List.exists_cons_of_ne_nil fun hnil => h (.inr (hnil ▸ List.nil_prefix))

/-! ### Values at a path -/

/-- A value stands at a path that leads through objects only. -/
inductive EntryAt (v : Json) : List String → Object → Prop
  | entry {s : String} {es : Object} (h : es.get? s = some v) : EntryAt v [s] es
  | deeper {s t : String} {rest : List String} {es fs : Object}
      (hget : es.get? s = some (.object fs)) (h : EntryAt v (t :: rest) fs) :
      EntryAt v (s :: t :: rest) es

namespace Json

/-- Writing along a path changes the entry under its first segment. -/
theorem insert_of_setSegments {path s : String} {new : Json} {rest : List String} {es es' : Object}
    (h : setSegments path new (s :: rest) (object es) = .ok (object es')) :
    ∃ part, es' = es.insert s part ∧
      (rest ≠ [] → writeBelow path s new rest ((es.get? s).getD null) = .ok part) := by
  cases rest with
  | nil =>
    cases h
    exact ⟨new, rfl, fun hne => absurd rfl hne⟩
  | cons t rest =>
    rw [setSegments_cons_cons, changePart_object] at h
    obtain ⟨part, hpart, h⟩ := bind_eq_ok.mp h
    cases h
    exact ⟨part, rfl, fun _ => hpart⟩

/-- Removing along a path changes nothing outside the entry under its first segment. -/
theorem get?_of_withoutPath {s other : String} {rest : List String} {es es' : Object}
    (hne : s ≠ other) (h : withoutPath (s :: rest) (object es) = object es') :
    es'.get? other = es.get? other := by
  cases rest with
  | nil =>
    cases hget : es.get? s with
    | none =>
      have hchild : (object es).child? s = none := hget
      rw [withoutPath_singleton_none hchild] at h
      cases h
      rfl
    | some v =>
      simp only [withoutPath, removeSegments?, hget, Option.map_some, object.injEq] at h
      rw [← h, Entries.get?_erase_of_ne es hne]
  | cons t rest =>
    rw [withoutPath_cons_cons] at h
    split at h
    · rw [replacePart_object, object.injEq] at h
      rw [← h, Entries.get?_insert_of_ne es _ hne]
    · cases h
      rfl

end Json

namespace EntryAt

variable {v new : Json} {p q : List String} {s : String} {es es' : Object}

/-- What stands at a path depends on the entry under its first segment. -/
theorem congr (h : EntryAt v (s :: p) es) (hget : es'.get? s = es.get? s) :
    EntryAt v (s :: p) es' := by
  cases h with
  | entry h => exact .entry (hget.trans h)
  | deeper hfs h => exact .deeper (hget.trans hfs) h

/-- On the way to a value there are objects. -/
theorem above (h : EntryAt v p es) {rest : List String} (hp : p = q ++ rest) (hrest : rest ≠ []) :
    ∃ fs, (Json.object es).getPath? q = some (.object fs) := by
  induction h generalizing q with
  | @entry s es hget =>
    cases q with
    | nil => exact ⟨es, rfl⟩
    | cons t q =>
      obtain ⟨-, htail⟩ := List.cons.inj hp
      exact absurd (List.append_eq_nil_iff.mp htail.symm).2 hrest
  | @deeper s t more es fs hget hbelow ih =>
    cases q with
    | nil => exact ⟨es, rfl⟩
    | cons u q =>
      obtain ⟨rfl, htail⟩ := List.cons.inj hp
      obtain ⟨found, hfound⟩ := ih htail
      exact ⟨found, by simpa [Json.getPath?, Json.child?, hget] using hfound⟩

theorem getPath? (h : EntryAt v p es) : (Json.object es).getPath? p = some v := by
  induction h with
  | entry hget => simp [Json.getPath?, Json.child?, hget]
  | deeper hget _ ih => simpa [Json.getPath?, Json.child?, hget] using ih

/-- **Writing along a path that does not overlap leaves a value where it is.** -/
theorem setSegments {path : String} (h : EntryAt v p es) (hpq : ¬ Overlap p q)
    (hset : Json.setSegments path new q (.object es) = .ok (.object es')) : EntryAt v p es' := by
  induction h generalizing q es' with
  | @entry s es hget =>
    obtain ⟨t, q, rfl⟩ := exists_cons_of_not_overlap hpq
    obtain ⟨part, rfl, -⟩ := Json.insert_of_setSegments hset
    have hne : t ≠ s := by
      rintro rfl
      exact hpq (.inl (by simp))
    exact .entry ((Entries.get?_insert_of_ne es part hne).trans hget)
  | @deeper s t rest es fs hget hbelow ih =>
    obtain ⟨u, q, rfl⟩ := exists_cons_of_not_overlap hpq
    obtain ⟨part, rfl, hpart⟩ := Json.insert_of_setSegments hset
    by_cases hne : u = s
    · subst hne
      have hrest : ¬ Overlap (t :: rest) q := fun hover => hpq (overlap_cons_iff.mpr hover)
      obtain ⟨w, q, rfl⟩ := exists_cons_of_not_overlap hrest
      have hinner : Json.setSegments path new (w :: q) (.object fs) = .ok part := by
        have hwrite := hpart (List.cons_ne_nil w q)
        rwa [hget] at hwrite
      obtain ⟨fs', rfl⟩ := Object.object_of_setSegments hinner
      exact .deeper (Entries.get?_insert_self es u _) (ih hrest hinner)
    · exact (EntryAt.deeper hget hbelow).congr (Entries.get?_insert_of_ne es part hne)

/-- **So does removing such a path.** -/
theorem withoutPath (h : EntryAt v p es) (hpq : ¬ Overlap p q)
    (hremove : Json.withoutPath q (.object es) = .object es') : EntryAt v p es' := by
  induction h generalizing q es' with
  | @entry s es hget =>
    obtain ⟨t, q, rfl⟩ := exists_cons_of_not_overlap hpq
    have hne : t ≠ s := by
      rintro rfl
      exact hpq (.inl (by simp))
    exact .entry ((Json.get?_of_withoutPath hne hremove).trans hget)
  | @deeper s t rest es fs hget hbelow ih =>
    obtain ⟨u, q, rfl⟩ := exists_cons_of_not_overlap hpq
    by_cases hne : u = s
    · subst hne
      have hrest : ¬ Overlap (t :: rest) q := fun hover => hpq (overlap_cons_iff.mpr hover)
      obtain ⟨w, q, rfl⟩ := exists_cons_of_not_overlap hrest
      obtain ⟨fs', hinner⟩ := Json.object_of_withoutPath (w :: q) fs
      have hchild : (Json.object es).child? u = some (.object fs) := hget
      rw [Json.withoutPath_cons_cons, hchild] at hremove
      simp only [hinner, Json.replacePart_object, Json.object.injEq] at hremove
      subst hremove
      exact .deeper (Entries.get?_insert_self es u _) (ih hrest hinner)
    · exact (EntryAt.deeper hget hbelow).congr (Json.get?_of_withoutPath hne hremove)

end EntryAt

/-! ### Paths that are written -/

/-- What is written through objects stands where it was written. -/
theorem Written.entryAt {new : Json} {segments : List String} {es es' : Object}
    (h : Written new segments es es') : EntryAt new segments es' := by
  induction h with
  | entry s es => exact .entry (Entries.get?_insert_self es s new)
  | deeper _ _ ih => exact .deeper (Entries.get?_insert_self _ _ _) ih

/-- Any path can be created in no entries. -/
theorem creatable_nil {segments : List String} (hne : segments ≠ []) : Creatable segments [] := by
  induction segments with
  | nil => exact absurd rfl hne
  | cons s rest ih =>
    cases rest with
    | nil => exact .entry rfl
    | cons t rest => exact .deeper rfl (ih (List.cons_ne_nil t rest))

/-- A path that can be created still can when another one was written that does not overlap. -/
theorem Creatable.of_written {p q : List String} {new : Json} {es es' : Object}
    (h : Creatable p es) (hpq : ¬ Overlap p q) (hwritten : Written new q es es') :
    Creatable p es' := by
  induction h generalizing q es' with
  | @entry s es hnone =>
    have hne : ∀ {t : String} {rest : List String}, ¬ Overlap [s] (t :: rest) → t ≠ s := by
      rintro t rest hpq rfl
      exact hpq (.inl (by simp))
    cases hwritten with
    | entry t => exact .entry ((Entries.get?_insert_of_ne es new (hne hpq)).trans hnone)
    | deeper _ _ => exact .entry ((Entries.get?_insert_of_ne es _ (hne hpq)).trans hnone)
  | @deeper s t rest es fs hopened hbelow ih =>
    have hother : ∀ {u : String} (part : Json), u ≠ s →
        Creatable (s :: t :: rest) (es.insert u part) := by
      intro u part hne
      exact .deeper ((Entries.get?_insert_of_ne es part hne).symm ▸ hopened) hbelow
    cases hwritten with
    | entry u =>
      refine hother new ?_
      rintro rfl
      exact hpq (.inr (by simp))
    | @deeper u w q _ gs gs' hopened' hwritten =>
      by_cases hne : u = s
      · subst hne
        obtain rfl := Option.some.inj (hopened'.symm.trans hopened)
        have hrest : ¬ Overlap (t :: rest) (w :: q) := fun hover =>
          hpq (overlap_cons_iff.mpr hover)
        refine .deeper ?_ (ih hrest hwritten)
        rw [Entries.get?_insert_self]
        rfl
      · exact hother _ hne

end DocumentMapper
