import DocumentMapper.Proofs.KeptByUpdates

/-!
# Paths of names

A path of names leads through entries of objects only: none of its segments is a position. Writing
along such a path has one way to succeed (`Written`): every object on the way is there or is created
in place of nothing or null.

## Main results

* `Object.setPath_eq_ok_iff`: a document is written along a path of names as `Written` says;
* `Object.setPath_again`: writing twice at one path is writing the second time only;
* `Object.getPath?_setPath_of_apart`, `Object.getPath?_removePath_of_apart`: what is read at a path
  that is apart stays the same, also whether anything is there;
* `Object.getPath?_setPath_above`, `Object.getPath?_removePath_above`: what a write and a removal
  leave at a path above theirs.
-/

namespace DocumentMapper

open Text

/-- A path leads through entries of objects only. -/
def Named (segments : List String) : Prop :=
  ∀ s ∈ segments, position? s = none

/-- The entries of what a path of names is written into: a missing value and null become an
object. -/
def openedEntries? : Option Json → Option Object
  | none => some []
  | some .null => some []
  | some (.object es) => some es
  | some _ => none

/-- Some entries become others when a value is written along a path of names. -/
inductive Written (new : Json) : List String → Object → Object → Prop
  | entry (s : String) (es : Object) : Written new [s] es (es.insert s new)
  | deeper {s t : String} {rest : List String} {es fs fs' : Object}
      (hopened : openedEntries? (es.get? s) = some fs) (h : Written new (t :: rest) fs fs') :
      Written new (s :: t :: rest) es (es.insert s (.object fs'))

namespace Entries

/-- Writing a key twice is writing it the second time only. -/
theorem insert_insert {α : Type} (es : Entries α) (key : String) (old new : α) :
    (es.insert key old).insert key new = es.insert key new := by
  induction es with
  | nil => simp [insert]
  | cons e rest ih =>
    obtain ⟨k, v⟩ := e
    by_cases hk : k = key
    · simp [insert, hk]
    · simp [insert, hk, ih]

end Entries

namespace Named

theorem tail {s : String} {segments : List String} (h : Named (s :: segments)) : Named segments :=
  fun t ht => h t (List.mem_cons_of_mem s ht)

theorem head {s : String} {segments : List String} (h : Named (s :: segments)) :
    position? s = none :=
  h s List.mem_cons_self

/-- Two paths of names neither of which begins the other one are apart. -/
theorem apart {p q : List String} (hp : Named p) (hpq : ¬ p <+: q) (hqp : ¬ q <+: p) :
    Apart p q := by
  induction p generalizing q with
  | nil => exact absurd List.nil_prefix hpq
  | cons s p ih =>
    cases q with
    | nil => exact absurd List.nil_prefix hqp
    | cons t q =>
      by_cases hst : s = t
      · subst hst
        refine .inr (ih hp.tail (fun h => hpq ?_) fun h => hqp ?_)
        · exact (List.prefix_cons_inj s).mpr h
        · exact (List.prefix_cons_inj s).mpr h
      · exact .inl ⟨hst, .inl hp.head⟩

end Named

namespace Json

/-! ### Reading -/

/-- What two paths lead to, one after the other. -/
theorem getPath?_append (p q : List String) (j : Json) :
    j.getPath? (p ++ q) = (j.getPath? p).bind (getPath? q) := by
  induction p generalizing j with
  | nil => rfl
  | cons s p ih =>
    simp only [List.cons_append, getPath?, Option.bind_assoc]
    exact congrArg _ (funext ih)

/-- A name leads somewhere in objects only. -/
theorem object_of_child? {j part : Json} {s : String} (hs : position? s = none)
    (h : j.child? s = some part) : ∃ es, j = object es := by
  rcases isContainer_of_child? h with hj | ⟨items, rfl⟩
  · exact hj
  · simp [child?, hs] at h

/-- What is read in the opened entries is what is read below the name they were opened for. -/
theorem getPath?_opened {s : String} {q : List String} {es fs : Object} (hq : q ≠ [])
    (hopened : openedEntries? (es.get? s) = some fs) :
    (object fs).getPath? q = (object es).getPath? (s :: q) := by
  obtain ⟨t, q, rfl⟩ := List.exists_cons_of_ne_nil hq
  simp only [getPath?, child?]
  generalize Entries.get? es s = part at hopened
  rcases part with _ | (_ | _ | _ | _ | _ | _ | _) <;> cases hopened <;> rfl

/-! ### Writing -/

/-- Below a first segment a path of names is written into the opened entries. -/
theorem writeBelow_eq_ok_iff {path s t : String} {rest : List String} (ht : position? t = none)
    {part : Option Json} {new v : Json} :
    writeBelow path s new (t :: rest) (part.getD null) = .ok v ↔
      ∃ fs, openedEntries? part = some fs ∧
        setSegments path new (t :: rest) (object fs) = .ok v := by
  have harray : ∀ F items, changePart path t F (array items) ≠ .ok v := by
    intro F items
    simp [changePart_array, ht, throw, throwThe, MonadExceptOf.throw]
  have hsegments : ∀ items, setSegments path new (t :: rest) (array items) ≠ .ok v := by
    intro items
    cases rest with
    | nil => exact harray _ items
    | cons u rest => exact harray _ items
  rcases part with _ | (_ | _ | _ | _ | _ | items | _) <;>
    simp [openedEntries?, writeBelow, hsegments, throw, throwThe, MonadExceptOf.throw]

/-- Values are written along a path of names as `Written` says. -/
theorem setSegments_eq_ok_iff {path : String} {new j' : Json} {segments : List String}
    (hne : segments ≠ []) (hnamed : Named segments) {es : Object} :
    setSegments path new segments (object es) = .ok j' ↔
      ∃ es', Written new segments es es' ∧ j' = object es' := by
  induction segments generalizing es j' with
  | nil => exact absurd rfl hne
  | cons s rest ih =>
    cases rest with
    | nil =>
      constructor
      · intro h
        cases h
        exact ⟨_, .entry s es, rfl⟩
      · rintro ⟨es', hwritten, rfl⟩
        cases hwritten
        rfl
    | cons t rest =>
      rw [setSegments_cons_cons, changePart_object, bind_eq_ok]
      simp only [writeBelow_eq_ok_iff hnamed.tail.head, ih (List.cons_ne_nil t rest) hnamed.tail]
      constructor
      · rintro ⟨v, ⟨fs, hfs, fs', hwritten, rfl⟩, h⟩
        cases h
        exact ⟨_, .deeper hfs hwritten, rfl⟩
      · rintro ⟨es', hwritten, rfl⟩
        cases hwritten with
        | deeper hfs hwritten => exact ⟨_, ⟨_, hfs, _, hwritten, rfl⟩, rfl⟩

end Json

namespace Written

variable {old new : Json} {segments : List String} {es es' : Object}

/-- What is written is read back. -/
theorem getPath?_self (h : Written new segments es es') :
    (Json.object es').getPath? segments = some new := by
  induction h with
  | entry s es => simp [Json.getPath?, Json.child?]
  | deeper hopened h ih =>
    simp only [Json.getPath?, Json.child?, Entries.get?_insert_self, Option.bind_some]
    exact ih

/-- What is written can be written over. -/
theorem again (h : Written old segments es es') (new : Json) :
    ∃ es'', Written new segments es es'' ∧ Written new segments es' es'' := by
  induction h with
  | entry s es =>
    have hsecond : Written new [s] (es.insert s old) ((es.insert s old).insert s new) := .entry s _
    rw [Entries.insert_insert] at hsecond
    exact ⟨_, .entry s es, hsecond⟩
  | @deeper s t rest es fs fs' hopened h ih =>
    obtain ⟨fs'', hfirst, hsecond⟩ := ih
    have hreopened : openedEntries? ((es.insert s (.object fs')).get? s) = some fs' := by
      rw [Entries.get?_insert_self]
      rfl
    have hsecond := Written.deeper hreopened hsecond
    rw [Entries.insert_insert] at hsecond
    exact ⟨_, .deeper hopened hfirst, hsecond⟩

/-- **What is read at a path that is apart stays the same.** -/
theorem getPath?_of_apart (h : Written new segments es es') {q : List String}
    (hq : Apart q segments) : (Json.object es').getPath? q = (Json.object es).getPath? q := by
  have hother : ∀ {s u : String} (q : List String) (es : Object) (v : Json), u ≠ s →
      (Json.object (es.insert s v)).getPath? (u :: q) = (Json.object es).getPath? (u :: q) := by
    intro s u q es v hne
    simp only [Json.getPath?, Json.child?, Entries.get?_insert_of_ne es v hne.symm]
  induction h generalizing q with
  | entry s es =>
    cases q with
    | nil => simp [Apart] at hq
    | cons u q =>
      rcases hq with ⟨hne, -⟩ | hq
      · exact hother q es _ hne
      · cases q <;> simp [Apart] at hq
  | @deeper s t rest es fs fs' hopened h ih =>
    cases q with
    | nil => simp [Apart] at hq
    | cons u q =>
      rcases hq with ⟨hne, -⟩ | hq
      · exact hother q es _ hne
      · by_cases hne : u = s
        · subst hne
          have hq' : q ≠ [] := by
            rintro rfl
            simp [Apart] at hq
          rw [← Json.getPath?_opened hq' hopened, ← ih hq]
          simp [Json.getPath?, Json.child?]
        · exact hother q es _ hne

/-- A write below a path leaves an object there. No array stood there before. -/
theorem getPath?_above {p rest : List String} (h : Written new segments es es')
    (hp : segments = p ++ rest) (hrest : rest ≠ []) :
    (∃ fs, (Json.object es').getPath? p = some (.object fs)) ∧
      ∀ items, (Json.object es).getPath? p ≠ some (.array items) := by
  induction h generalizing p with
  | entry s es =>
    cases p with
    | nil => exact ⟨⟨_, rfl⟩, by simp [Json.getPath?]⟩
    | cons u p =>
      obtain ⟨-, hnil⟩ := List.cons.inj hp
      exact absurd (List.append_eq_nil_iff.mp hnil.symm).2 hrest
  | @deeper s t more es fs fs' hopened h ih =>
    cases p with
    | nil => exact ⟨⟨_, rfl⟩, by simp [Json.getPath?]⟩
    | cons u p =>
      obtain ⟨rfl, hmore⟩ := List.cons.inj hp
      obtain ⟨⟨gs, hgs⟩, hnot⟩ := ih hmore
      refine ⟨⟨gs, ?_⟩, fun items hitems => ?_⟩
      · simpa [Json.getPath?, Json.child?] using hgs
      · by_cases hpnil : p = []
        · subst hpnil
          have hget : Entries.get? es s = some (.array items) := by
            simpa [Json.getPath?, Json.child?] using hitems
          rw [hget] at hopened
          cases hopened
        · exact hnot items ((Json.getPath?_opened hpnil hopened).trans hitems)

end Written

namespace Json

/-! ### Removing -/

/-- Replacing a part changes what its name leads to. -/
theorem child?_replacePart {j part new : Json} {s : String} (hs : position? s = none)
    (h : j.child? s = some part) (u : String) :
    (replacePart s new j).child? u = if u = s then some new else j.child? u := by
  obtain ⟨es, rfl⟩ := object_of_child? hs h
  rw [replacePart_object]
  simp only [child?]
  rw [Entries.get?_insert]
  by_cases hne : u = s
  · simp [hne]
  · simp [hne, Ne.symm hne]

/-- What is removed along a path that leads nowhere is nothing. -/
theorem withoutPath_of_getPath?_none {segments : List String} {j : Json}
    (h : j.getPath? segments = none) : withoutPath segments j = j := by
  unfold withoutPath
  cases hremove : removeSegments? segments j with
  | none => rfl
  | some removed =>
    rw [getPath?_of_removeSegments? hremove] at h
    cases h

/-- **What is read at a path that is apart stays the same.** -/
theorem getPath?_withoutPath_of_apart {p q : List String} {j : Json} (hp : Named p)
    (hq : Apart q p) : (withoutPath p j).getPath? q = j.getPath? q := by
  induction p generalizing q j with
  | nil => cases q <;> simp [Apart] at hq
  | cons s p ih =>
    cases q with
    | nil => simp [Apart] at hq
    | cons u q =>
      cases p with
      | nil =>
        have hne : u ≠ s := by
          rcases hq with ⟨hne, -⟩ | hq
          · exact hne
          · cases q <;> simp [Apart] at hq
        cases hchild : j.child? s with
        | none => rw [withoutPath_singleton_none hchild]
        | some part =>
          obtain ⟨es, rfl⟩ := object_of_child? hp.head hchild
          simp only [child?] at hchild
          simp only [withoutPath, removeSegments?, hchild, Option.map_some, getPath?, child?,
            Entries.get?_erase_of_ne es hne.symm]
      | cons t p =>
        rw [withoutPath_cons_cons]
        cases hchild : j.child? s with
        | none => rfl
        | some part =>
          simp only [getPath?, child?_replacePart hp.head hchild]
          by_cases hne : u = s
          · subst hne
            have hbelow := ih (j := part) hp.tail (hq.resolve_left fun hnever => hnever.1 rfl)
            simp [hchild, hbelow]
          · simp [hne]

/-- What a removal below a path leaves there. -/
theorem getPath?_withoutPath_above {p rest : List String} {j : Json} (hp : Named (p ++ rest))
    (hrest : rest ≠ []) :
    (withoutPath (p ++ rest) j).getPath? p = (j.getPath? p).map (withoutPath rest) := by
  induction p generalizing j with
  | nil => rfl
  | cons s p ih =>
    obtain ⟨t, more, hmore⟩ := List.exists_cons_of_ne_nil (List.append_ne_nil_of_right_ne_nil p hrest)
    have hpart := fun part : Json => ih (j := part) hp.tail
    rw [List.cons_append, hmore, withoutPath_cons_cons]
    rw [hmore] at hpart
    cases hchild : j.child? s with
    | none => simp [getPath?, hchild]
    | some part =>
      simp only [getPath?, child?_replacePart hp.head hchild, ↓reduceIte, Option.bind_some, hchild,
        hpart]

/-- What remains of an object is an object. -/
theorem object_of_withoutPath (segments : List String) (es : Object) :
    ∃ fs, withoutPath segments (object es) = object fs := by
  match segments with
  | [] => exact ⟨es, rfl⟩
  | [s] =>
    simp only [withoutPath, removeSegments?]
    cases Entries.get? es s with
    | none => exact ⟨es, rfl⟩
    | some v => exact ⟨_, rfl⟩
  | s :: t :: rest =>
    rw [withoutPath_cons_cons]
    split
    · exact ⟨_, rfl⟩
    · exact ⟨es, rfl⟩

end Json

namespace Object

variable {doc doc' : Object} {path : String} {old new : Json} {p : List String}

/-! ### Documents -/

/-- **A document is written along a path of names as `Written` says.** -/
theorem setPath_eq_ok_iff (hpath : Named (dottedSegments path)) :
    doc.setPath path new = .ok doc' ↔ Written new (dottedSegments path) doc doc' := by
  rw [setPath_eq_ok, Json.setSegments_eq_ok_iff (dottedSegments_ne_nil path) hpath]
  constructor
  · rintro ⟨es', hwritten, heq⟩
    cases heq
    exact hwritten
  · exact fun hwritten => ⟨doc', hwritten, rfl⟩

/-- **Writing twice at one path is writing the second time only.** -/
theorem setPath_again (hpath : Named (dottedSegments path)) (h : doc.setPath path old = .ok doc')
    (new : Json) : ∃ doc'', doc.setPath path new = .ok doc'' ∧ doc'.setPath path new = .ok doc'' := by
  obtain ⟨doc'', hfirst, hsecond⟩ := ((setPath_eq_ok_iff hpath).mp h).again new
  exact ⟨doc'', (setPath_eq_ok_iff hpath).mpr hfirst, (setPath_eq_ok_iff hpath).mpr hsecond⟩

/-- What is written is read back. -/
theorem getPath?_setPath_self (hpath : Named (dottedSegments path))
    (h : doc.setPath path new = .ok doc') : doc'.getPath? path = some new :=
  ((setPath_eq_ok_iff hpath).mp h).getPath?_self

/-- **A write leaves alone what is read at a path that is apart.** -/
theorem getPath?_setPath_of_apart (hpath : Named (dottedSegments path))
    (hp : Apart p (dottedSegments path)) (h : doc.setPath path new = .ok doc') :
    (Json.object doc').getPath? p = (Json.object doc).getPath? p :=
  ((setPath_eq_ok_iff hpath).mp h).getPath?_of_apart hp

/-- **A removal leaves alone what is read at a path that is apart.** -/
theorem getPath?_removePath_of_apart (hpath : Named (dottedSegments path))
    (hp : Apart p (dottedSegments path)) :
    (Json.object (doc.removePath path)).getPath? p = (Json.object doc).getPath? p := by
  rw [object_removePath]
  exact Json.getPath?_withoutPath_of_apart hpath hp

/-- A write below a path leaves an object there, and does not succeed below an array. -/
theorem getPath?_setPath_above {rest : List String} (hpath : Named (dottedSegments path))
    (hp : dottedSegments path = p ++ rest) (hrest : rest ≠ [])
    (h : doc.setPath path new = .ok doc') :
    (∃ es, (Json.object doc').getPath? p = some (.object es)) ∧
      ∀ items, (Json.object doc).getPath? p ≠ some (.array items) :=
  ((setPath_eq_ok_iff hpath).mp h).getPath?_above hp hrest

/-- Nothing is removed where there is nothing. -/
theorem removePath_of_getPath?_none (h : doc.getPath? path = none) : doc.removePath path = doc := by
  have hremove := object_removePath doc path
  rw [Json.withoutPath_of_getPath?_none h] at hremove
  exact Json.object.inj hremove

/-- A removal of something below a path leaves an object there. -/
theorem getPath?_removePath_above {rest : List String} (hpath : Named (dottedSegments path))
    (hp : dottedSegments path = p ++ rest) (hrest : rest ≠ []) (h : doc.getPath? path ≠ none) :
    ∃ es, (Json.object (doc.removePath path)).getPath? p = some (.object es) := by
  rw [object_removePath, hp, Json.getPath?_withoutPath_above (hp ▸ hpath) hrest]
  unfold getPath? at h
  rw [hp, Json.getPath?_append] at h
  obtain ⟨s, more, rfl⟩ := List.exists_cons_of_ne_nil hrest
  cases hfound : (Json.object doc).getPath? p with
  | none => simp [hfound] at h
  | some found =>
    rw [hfound, Option.bind_some] at h
    cases hchild : found.child? s with
    | none => simp [Json.getPath?, hchild] at h
    | some part =>
      have hs : position? s = none := hpath s (by rw [hp]; simp)
      obtain ⟨es, rfl⟩ := Json.object_of_child? hs hchild
      obtain ⟨fs, hfs⟩ := Json.object_of_withoutPath (s :: more) es
      exact ⟨fs, by rw [Option.map_some, hfs]⟩

end Object

end DocumentMapper
