import DocumentMapper.Proofs.Loading
import DocumentMapper.Proofs.ObjectPaths
import DocumentMapper.Proofs.PositionalSearch

/-!
# What a selection of paths keeps

A selection that lists paths copies what stands at them into a new document. It follows a path as a
read does, to one value, whereas a filter goes into the items of an array that it meets at a name.
So a filter sees at a listed path what it saw before, unless it saw it only by going through an
array (`Json.FansOut`): then nothing is kept, and it sees nothing.

The arrays on the way to an item are not copied. The item stands under its position in an object
instead, where reads and filters find it all the same.

## Main results

* `Json.reach_eq_toList_iff`: a filter sees what a read finds exactly where no array fans out;
* `Assembled.written`: copying a value keeps that all values come from the same places;
* `Object.project_keeps`: what a selection keeps of a document.
-/

namespace DocumentMapper

open Text

/-! ### What a filter sees and a read does not -/

/-- A path meets an array at a name, and the items have something there. -/
inductive Json.FansOut : List String → Json → Prop
  | here {name : String} {rest : List String} {items : List Json} {es : Object}
      (hname : position? name = none) (hitem : .object es ∈ items)
      (hfound : (Json.object es).reach (name :: rest) ≠ []) : FansOut (name :: rest) (.array items)
  | deeper {segment : String} {rest : List String} {j part : Json}
      (hchild : j.child? segment = some part) (h : FansOut rest part) : FansOut (segment :: rest) j

namespace Json

/-- A path fans out behind a part of a value if it does so in the part. -/
theorem fansOut_cons_iff {segment : String} {rest : List String} {j part : Json}
    (hchild : j.child? segment = some part) : FansOut (segment :: rest) j ↔ FansOut rest part := by
  constructor
  · intro h
    cases h with
    | here hname _ _ => simp [child?, hname] at hchild
    | deeper hchild' h =>
      obtain rfl := Option.some.inj (hchild.symm.trans hchild')
      exact h
  · exact .deeper hchild

/-- What a filter sees behind a part of a value. -/
theorem reach_of_child? {segment : String} {rest : List String} {j part : Json}
    (hchild : j.child? segment = some part) : j.reach (segment :: rest) = part.reach rest := by
  have hread : j.getPath? [segment] = some part := by
    simp [getPath?, hchild]
  exact reach_of_getPath? hread rest

/-- An array has something at a name if one of its objects has. -/
theorem reach_array_ne_nil_iff {name : String} {rest : List String} {items : List Json}
    (hname : position? name = none) :
    (array items).reach (name :: rest) ≠ [] ↔ FansOut (name :: rest) (array items) := by
  have hitems : (array items).reach (name :: rest) =
      items.flatMap fun item =>
        if item.asObject?.isSome then item.reach (name :: rest) else [] := by
    rw [reach, hname]
    refine congrArg (items.flatMap ·) (funext fun item => ?_)
    cases item <;> rfl
  rw [hitems, Ne, List.flatMap_eq_nil_iff, not_forall]
  constructor
  · rintro ⟨item, hitem⟩
    obtain ⟨hmem, hfound⟩ := Classical.not_imp.mp hitem
    cases item with
    | object es => exact .here hname hmem hfound
    | null | bool | whole | float | string | array => exact absurd rfl hfound
  · intro h
    cases h with
    | here _ hmem hfound => exact ⟨_, fun hnone => hfound (hnone hmem)⟩
    | deeper hchild _ => simp [child?, hname] at hchild

/-- **A filter sees the value that a read finds, exactly if the path does not fan out.** -/
theorem reach_eq_toList_iff {segments : List String} {j : Json} :
    j.reach segments = (j.getPath? segments).toList ↔ ¬ FansOut segments j := by
  induction segments generalizing j with
  | nil => exact iff_of_true rfl (fun h => nomatch h)
  | cons segment rest ih =>
    cases hchild : j.child? segment with
    | some part =>
      rw [reach_of_child? hchild, fansOut_cons_iff hchild, ← ih]
      simp only [getPath?, hchild, Option.bind_some]
    | none =>
      have hread : j.getPath? (segment :: rest) = none := by
        simp only [getPath?, hchild, Option.bind_none]
      rw [hread, Option.toList_none]
      cases j with
      | array items =>
        cases hname : position? segment with
        | none => exact not_ne_iff.symm.trans (not_congr (reach_array_ne_nil_iff hname))
        | some i =>
          have hitem : items[i]? = none := by simpa [child?, hname] using hchild
          refine iff_of_true ?_ fun h => ?_
          · simp only [reach, hname, hitem]
          · cases h with
            | here hnone _ _ => exact absurd (hname.symm.trans hnone) (by simp)
            | deeper hpart _ => exact absurd (hchild.symm.trans hpart) (by simp)
      | object es =>
        have hentry : Entries.get? es segment = none := hchild
        refine iff_of_true ?_ fun h => ?_
        · rw [reach_object, hentry]
        · cases h with
          | deeper hpart _ => exact absurd (hchild.symm.trans hpart) (by simp)
      | null | bool | whole | float | string =>
        refine iff_of_true rfl fun h => ?_
        cases h with
        | deeper hpart _ => exact absurd (hchild.symm.trans hpart) (by simp)

end Json

/-! ### Documents assembled from parts of another one -/

/-- What is read after a write: something of the new value, an object on the way to it, or what was
there before. -/
theorem Written.getPath?_eq_some {new v : Json} {p q : List String} {es es' : Object}
    (h : Written new p es es') (hread : (Json.object es').getPath? q = some v) :
    (∃ more, q = p ++ more ∧ new.getPath? more = some v) ∨
      (q <+: p ∧ q ≠ p ∧ ∃ fs, v = .object fs) ∨ (Json.object es).getPath? q = some v := by
  induction h generalizing q with
  | entry s es =>
    cases q with
    | nil =>
      exact .inr (.inl ⟨List.nil_prefix, (List.cons_ne_nil s []).symm, _,
        (Option.some.inj hread).symm⟩)
    | cons t q =>
      by_cases hst : s = t
      · subst hst
        refine .inl ⟨q, rfl, ?_⟩
        simpa [Json.getPath?, Json.child?] using hread
      · refine .inr (.inr ?_)
        simpa [Json.getPath?, Json.child?, Entries.get?_insert_of_ne es new hst] using hread
  | @deeper s t rest es fs fs' hopened hwritten ih =>
    cases q with
    | nil =>
      exact .inr (.inl ⟨List.nil_prefix, (List.cons_ne_nil _ _).symm, _,
        (Option.some.inj hread).symm⟩)
    | cons u q =>
      by_cases hsu : s = u
      · subst hsu
        have hread' : (Json.object fs').getPath? q = some v := by
          simpa [Json.getPath?, Json.child?] using hread
        rcases ih hread' with ⟨more, rfl, hmore⟩ | ⟨habove, hne, hobject⟩ | hbefore
        · exact .inl ⟨more, rfl, hmore⟩
        · refine .inr (.inl ⟨(List.prefix_cons_inj s).mpr habove, fun heq => hne ?_, hobject⟩)
          exact (List.cons.inj heq).2
        · by_cases hq : q = []
          · subst hq
            refine .inr (.inl ⟨by simp, by simp, fs', ?_⟩)
            exact (Option.some.inj hread').symm
          · exact .inr (.inr ((Json.getPath?_opened hq hopened).symm.trans hbefore))
      · refine .inr (.inr ?_)
        simpa [Json.getPath?, Json.child?, Entries.get?_insert_of_ne es _ hsu] using hread

/-- Every value of `kept` is one of `doc` at the same place, at or below one of the paths, or an
object on the way to one of them. -/
def Assembled (doc kept : Object) (paths : List (List String)) : Prop :=
  ∀ q v, q ≠ [] → (Json.object kept).getPath? q = some v →
    (∃ p ∈ paths, p <+: q ∧ (Json.object doc).getPath? q = some v) ∨
      ∃ p ∈ paths, q <+: p ∧ q ≠ p ∧ ∃ fs, v = .object fs

namespace Assembled

variable {doc kept kept' : Object} {paths : List (List String)} {p : List String} {v : Json}

/-- **A value that is copied to its own place keeps a document assembled.** -/
theorem written (h : Assembled doc kept paths) (hv : (Json.object doc).getPath? p = some v)
    (hwritten : Written v p kept kept') : Assembled doc kept' (p :: paths) := by
  intro q w hq hread
  rcases hwritten.getPath?_eq_some hread with ⟨more, rfl, hmore⟩ | ⟨habove, hne, hobject⟩ | hbefore
  · refine .inl ⟨p, List.mem_cons_self, List.prefix_append p more, ?_⟩
    rw [Json.getPath?_append, hv, Option.bind_some, hmore]
  · exact .inr ⟨p, List.mem_cons_self, habove, hne, hobject⟩
  · exact (h q w hq hbefore).imp (fun ⟨r, hr, hfrom⟩ => ⟨r, List.mem_cons_of_mem p hr, hfrom⟩)
      fun ⟨r, hr, hfrom⟩ => ⟨r, List.mem_cons_of_mem p hr, hfrom⟩

/-- Beside the paths that a document was assembled from, a filter sees nothing. -/
theorem reach_eq_nil (h : Assembled doc kept paths) (hp : p ≠ [])
    (hbeside : ∀ r ∈ paths, ¬ Overlap p r) : (Json.object kept).reach p = [] := by
  have hway : ∀ rest front (es : Object), p = front ++ rest →
      (Json.object kept).getPath? front = some (.object es) → (Json.object es).reach rest = [] := by
    intro rest
    induction rest with
    | nil =>
      intro front es hfront hread
      rw [List.append_nil] at hfront
      subst hfront
      rcases h p _ hp hread with ⟨r, hr, hbegins, -⟩ | ⟨r, hr, hbegins, -⟩
      · exact absurd (.inr hbegins) (hbeside r hr)
      · exact absurd (.inl hbegins) (hbeside r hr)
    | cons s rest ih =>
      intro front es hfront hread
      rw [Json.reach_object]
      cases hget : Entries.get? es s with
      | none => rfl
      | some part =>
        have hpart : (Json.object kept).getPath? (front ++ [s]) = some part := by
          rw [Json.getPath?_append, hread]
          simpa [Json.getPath?, Json.child?] using hget
        have hnext : p = (front ++ [s]) ++ rest := by
          simp [hfront]
        rcases h _ _ (by simp) hpart with ⟨r, hr, hbegins, -⟩ | ⟨r, hr, -, -, fs, rfl⟩
        · exact absurd (.inr (hbegins.trans ⟨rest, hnext.symm⟩)) (hbeside r hr)
        · exact ih (front ++ [s]) fs hnext hpart
  exact hway p [] kept rfl rfl

/-- A document that is assembled from parts at some paths is so from parts at more paths. -/
theorem mono (h : Assembled doc kept paths) {more : List (List String)} (hsub : paths ⊆ more) :
    Assembled doc kept more := fun q w hq hread =>
  (h q w hq hread).imp (fun ⟨r, hr, hfrom⟩ => ⟨r, hsub hr, hfrom⟩)
    fun ⟨r, hr, hfrom⟩ => ⟨r, hsub hr, hfrom⟩

end Assembled

namespace Object

variable {doc kept projection : Object} {path : String}

/-! ### Copying paths -/

/-- What was kept of a document, with the value at one more path. -/
def copyPath (doc kept : Object) (path : String) : Object :=
  match doc.getPath? path with
  | some v => place kept path v
  | none => kept

/-- Copying a path that leads into the id changes nothing: the id is there already. -/
theorem copyPath_of_id (hid : kept.get? idKey = doc.get? idKey)
    (hpath : (dottedSegments path).head? = some idKey) : copyPath doc kept path = kept := by
  unfold copyPath
  cases hv : doc.getPath? path with
  | none => rfl
  | some v =>
    obtain ⟨rest, hsegments⟩ := List.head?_eq_some_iff.mp hpath
    have hsame : (Json.object kept).getPath? (dottedSegments path) = some v := by
      rw [← hv, getPath?, hsegments]
      simp only [Json.getPath?, Json.child?, hid]
    simp only [place, setPath, Json.setSegments_getPath? path (dottedSegments_ne_nil path) hsame]
    rfl

/-- Copying a path leaves the id as it was. -/
theorem get?_copyPath (hid : kept.get? idKey = doc.get? idKey) :
    (copyPath doc kept path).get? idKey = doc.get? idKey := by
  unfold copyPath
  cases hv : doc.getPath? path with
  | none => exact hid
  | some v => exact get?_place hv hid

/-- A value is copied where its path can be created. -/
theorem written_copyPath {v : Json} (hv : doc.getPath? path = some v)
    (hcreatable : Creatable (dottedSegments path) kept) :
    Written v (dottedSegments path) kept (copyPath doc kept path) := by
  obtain ⟨kept', hwritten⟩ := hcreatable.written v
  have hset : kept.setPath path v = .ok kept' := setPath_eq_ok.mpr (hwritten.setSegments path)
  simpa only [copyPath, hv, place, hset] using hwritten

/-- **Several paths are copied one after the other.** None of them begins another one, and none
leads into the id. What is assembled then has all that stands at them, and what it had beside
them. -/
theorem assembled_foldl_copyPath {paths : List String} {done : List (List String)}
    (hassembled : Assembled doc kept done)
    (hapart : paths.Pairwise fun a b => ¬ Overlap (dottedSegments a) (dottedSegments b))
    (hcreatable : ∀ path ∈ paths, Creatable (dottedSegments path) kept) :
    Assembled doc (paths.foldl (copyPath doc) kept)
        ((paths.filter fun path => (doc.getPath? path).isSome).map dottedSegments ++ done) ∧
      (∀ path ∈ paths, ∀ v, doc.getPath? path = some v →
        EntryAt v (dottedSegments path) (paths.foldl (copyPath doc) kept)) ∧
      ∀ v p, EntryAt v p kept → (∀ path ∈ paths, ¬ Overlap p (dottedSegments path)) →
        EntryAt v p (paths.foldl (copyPath doc) kept) := by
  induction paths generalizing kept done with
  | nil => exact ⟨hassembled, fun _ h => absurd h List.not_mem_nil, fun _ _ h _ => h⟩
  | cons first rest ih =>
    obtain ⟨hbeside, hapart'⟩ := List.pairwise_cons.mp hapart
    obtain ⟨hfirst, hcreatable'⟩ := List.forall_mem_cons.mp hcreatable
    rw [List.foldl_cons]
    cases hv : doc.getPath? first with
    | none =>
      have hsame : copyPath doc kept first = kept := by rw [copyPath, hv]
      rw [hsame, List.filter_cons_of_neg (by simp [hv])]
      obtain ⟨hall, hfound, hkeeps⟩ := ih hassembled hapart' hcreatable'
      refine ⟨hall, List.forall_mem_cons.mpr ⟨fun v hnever => ?_, hfound⟩, fun v p hp hout => ?_⟩
      · exact absurd (hv.symm.trans hnever) (by simp)
      · exact hkeeps v p hp (List.forall_mem_cons.mp hout).2
    | some w =>
      have hwritten := written_copyPath hv hfirst
      obtain ⟨hall, hfound, hkeeps⟩ := ih (hassembled.written hv hwritten) hapart'
        fun path hpath =>
          (hcreatable' path hpath).of_written (fun h => hbeside path hpath h.symm) hwritten
      refine ⟨?_, List.forall_mem_cons.mpr ⟨fun v hv' => ?_, hfound⟩, fun v p hp hout => ?_⟩
      · rw [List.filter_cons_of_pos (by simp [hv])]
        refine hall.mono fun r hr => ?_
        simp only [List.map_cons, List.cons_append, List.mem_cons, List.mem_append] at hr ⊢
        tauto
      · obtain rfl := Option.some.inj (hv.symm.trans hv')
        exact hkeeps w _ hwritten.entryAt hbeside
      · obtain ⟨hout, hout'⟩ := List.forall_mem_cons.mp hout
        exact hkeeps v p (hp.setSegments hout (hwritten.setSegments first)) hout'

/-! ### Selections -/

/-- The paths that lead into the id need not be copied. -/
theorem foldl_copyPath_filter (paths : List String) (hid : kept.get? idKey = doc.get? idKey) :
    (paths.filter fun path => (dottedSegments path).head? ≠ some idKey).foldl (copyPath doc) kept =
      paths.foldl (copyPath doc) kept := by
  induction paths generalizing kept with
  | nil => rfl
  | cons first rest ih =>
    by_cases hfirst : (dottedSegments first).head? = some idKey
    · rw [List.filter_cons_of_neg (by simp [hfirst]), List.foldl_cons, copyPath_of_id hid hfirst]
      exact ih hid
    · rw [List.filter_cons_of_pos (by simp [hfirst]), List.foldl_cons, List.foldl_cons]
      exact ih (get?_copyPath hid)

/-- What a selection starts with: the id. -/
def idEntry (doc : Object) : Object :=
  match doc.get? idKey with
  | some id => [(idKey, id)]
  | none => []

theorem get?_idEntry (doc : Object) : doc.idEntry.get? idKey = doc.get? idKey := by
  unfold idEntry
  cases h : doc.get? idKey with
  | none => rfl
  | some id => simp [Entries.get?]

theorem get?_idEntry_of_ne {key : String} (h : key ≠ idKey) : doc.idEntry.get? key = none := by
  unfold idEntry
  cases doc.get? idKey with
  | none => rfl
  | some id => simp [Entries.get?, Ne.symm h]

/-- The id alone is assembled from the document. -/
theorem assembled_idEntry (doc : Object) : Assembled doc doc.idEntry [[idKey]] := by
  rintro q v hq hread
  obtain ⟨s, rest, rfl⟩ := List.exists_cons_of_ne_nil hq
  by_cases hs : s = idKey
  · subst hs
    refine .inl ⟨[idKey], List.mem_singleton_self _, ⟨rest, rfl⟩, ?_⟩
    simpa only [Json.getPath?, Json.child?, get?_idEntry] using hread
  · simp [Json.getPath?, Json.child?, get?_idEntry_of_ne hs] at hread

/-- Any path that does not lead into the id can be created beside it. -/
theorem creatable_idEntry (h : (dottedSegments path).head? ≠ some idKey) :
    Creatable (dottedSegments path) doc.idEntry := by
  obtain ⟨s, rest, hsegments⟩ := List.exists_cons_of_ne_nil (dottedSegments_ne_nil path)
  rw [hsegments] at h ⊢
  have hnone : doc.idEntry.get? s = none := get?_idEntry_of_ne fun hs => h (by simp [hs])
  cases rest with
  | nil => exact .entry hnone
  | cons t rest => exact .deeper (by rw [hnone]; rfl) (creatable_nil (List.cons_ne_nil t rest))

/-- What is kept is copied to the id, one path after the other. -/
theorem keepPaths_eq_foldl (doc : Object) (paths : List String) :
    doc.keepPaths true paths = paths.foldl (copyPath doc) doc.idEntry :=
  rfl

/-- The paths of a selection that do not lead into the id. -/
def copiedPaths (projection : Object) : List String :=
  ((selectedPaths projection).map Prod.fst).filter
    fun path => (dottedSegments path).head? ≠ some idKey

theorem mem_copiedPaths : path ∈ copiedPaths projection ↔
    (∃ e ∈ projection, e.1 = path) ∧ (dottedSegments path).head? ≠ some idKey := by
  have hid : (dottedSegments path).head? ≠ some idKey → path ≠ idKey := by
    rintro hhead rfl
    exact hhead (by decide)
  simp only [copiedPaths, selectedPaths, List.mem_filter, List.mem_map, ne_eq, decide_not,
    Bool.not_eq_eq_eq_not, Bool.not_true, decide_eq_false_iff_not]
  constructor
  · rintro ⟨⟨e, ⟨he, -⟩, hpath⟩, hhead⟩
    exact ⟨⟨e, he, hpath⟩, hhead⟩
  · rintro ⟨⟨e, he, rfl⟩, hhead⟩
    exact ⟨⟨e, ⟨he, hid hhead⟩, rfl⟩, hhead⟩

/-- Where the parts of a selection come from: from the listed paths, and from the id. -/
theorem origin_cases {r : List String}
    (hr : r ∈ ((copiedPaths projection).filter fun path => (doc.getPath? path).isSome).map
      dottedSegments ++ [[idKey]]) :
    (∃ e ∈ projection, (doc.getPath? e.1).isSome = true ∧ r = dottedSegments e.1) ∨
      r = [idKey] := by
  rcases List.mem_append.mp hr with hr | hr
  · obtain ⟨path, hpath, rfl⟩ := List.mem_map.mp hr
    obtain ⟨hpath, hsome⟩ := List.mem_filter.mp hpath
    obtain ⟨⟨e, he, rfl⟩, -⟩ := mem_copiedPaths.mp hpath
    exact .inl ⟨e, he, hsome, rfl⟩
  · exact .inr (List.mem_singleton.mp hr)

/-- A place belongs to a selection: it is at or below a listed path, or the id. If nothing else than
the id is listed, every place does. -/
def IsSelected (projection : Object) (q : List String) : Prop :=
  (∀ e ∈ projection, e.1 = idKey) ∨ [idKey] <+: q ∨ ∃ e ∈ projection, dottedSegments e.1 <+: q

section

variable (hincluded : ∀ e ∈ projection, isIncluded e.2 = true)
  (hapart : projection.Pairwise fun a b => ¬ Overlap (dottedSegments a.1) (dottedSegments b.1))

include hincluded hapart

variable (doc) in
/-- A selection is assembled from the id and from what stands at its paths. -/
theorem assembled_project (hlisted : ∃ e ∈ projection, e.1 ≠ idKey) :
    Assembled doc (doc.project projection)
        (((copiedPaths projection).filter fun path => (doc.getPath? path).isSome).map
          dottedSegments ++ [[idKey]]) ∧
      ∀ path ∈ copiedPaths projection, ∀ v, doc.getPath? path = some v →
        EntryAt v (dottedSegments path) (doc.project projection) := by
  have hnonempty : ¬ (selectedPaths projection).isEmpty = true := by
    obtain ⟨e, he, hne⟩ := hlisted
    rw [Bool.not_eq_true, List.isEmpty_eq_false_iff_exists_mem]
    exact ⟨e, List.mem_filter.mpr ⟨he, by simpa using hne⟩⟩
  have hproject : doc.project projection =
      (copiedPaths projection).foldl (copyPath doc) doc.idEntry := by
    rw [project_of_included doc hincluded, if_neg hnonempty, copiedPaths,
      foldl_copyPath_filter _ (get?_idEntry doc), keepPaths_eq_foldl]
  have hpaths : (copiedPaths projection).Pairwise fun a b =>
      ¬ Overlap (dottedSegments a) (dottedSegments b) :=
    (List.pairwise_map.mpr (hapart.filter _)).filter _
  rw [hproject]
  obtain ⟨hall, hfound, -⟩ := assembled_foldl_copyPath (assembled_idEntry doc) hpaths
    fun path hpath => creatable_idEntry (mem_copiedPaths.mp hpath).2
  exact ⟨hall, hfound⟩

/-- **What a filter sees at a listed path** that does not lead into the id is what a read finds
there. -/
theorem lookup_project {e : String × Json} (he : e ∈ projection)
    (hhead : (dottedSegments e.1).head? ≠ some idKey) :
    (doc.project projection).lookup e.1 = (doc.getPath? e.1).toList := by
  have hne : e.1 ≠ idKey := by
    intro hid
    rw [hid] at hhead
    exact hhead (by decide)
  have hmem : e.1 ∈ copiedPaths projection := mem_copiedPaths.mpr ⟨⟨e, he, rfl⟩, hhead⟩
  obtain ⟨hall, hfound⟩ := assembled_project doc hincluded hapart ⟨e, he, hne⟩
  cases hv : doc.getPath? e.1 with
  | some v =>
    have hreach := Json.reach_of_getPath? (hfound e.1 hmem v hv).getPath? []
    rw [List.append_nil] at hreach
    exact hreach
  | none =>
    refine hall.reach_eq_nil (dottedSegments_ne_nil e.1) fun r hr => ?_
    obtain ⟨other, hother, hsome, rfl⟩ | rfl := origin_cases hr
    · have hdifferent : e ≠ other := by
        rintro rfl
        simp [hv] at hsome
      have : Std.Symm fun a b : String × Json =>
          ¬ Overlap (dottedSegments a.1) (dottedSegments b.1) := ⟨fun _ _ h hover => h hover.symm⟩
      exact hapart.forall he hother hdifferent
    · obtain ⟨s, rest, hsegments⟩ := List.exists_cons_of_ne_nil (dottedSegments_ne_nil e.1)
      rw [hsegments] at hhead ⊢
      rintro (hover | hover)
      · exact hhead (by simp [List.cons_prefix_cons.mp hover])
      · exact hhead (by simp [(List.cons_prefix_cons.mp hover).1])

/-- **What a selection keeps of a document.** For paths of which none begins another one a filter
sees at a listed path what it sees there in the document, exactly if the path leads into the id or
meets no array that fans out. The id is kept. Every value stands in the document at the same place,
which belongs to the selection, or is an object on the way to a listed path. -/
theorem project_keeps :
    (∀ e ∈ projection, (doc.project projection).lookup e.1 = doc.lookup e.1 ↔
        (dottedSegments e.1).head? = some idKey ∨
          ¬ Json.FansOut (dottedSegments e.1) (.object doc)) ∧
      (doc.project projection).get? idKey = doc.get? idKey ∧
      ∀ q v, (Json.object (doc.project projection)).getPath? q = some v →
        ((Json.object doc).getPath? q = some v ∧ projection.IsSelected q) ∨
          (∃ fs, v = .object fs) ∧
            ∃ e ∈ projection, q <+: dottedSegments e.1 ∧ q ≠ dottedSegments e.1 := by
  have hid := get?_project doc hincluded
  refine ⟨fun e he => ?_, hid, fun q v hread => ?_⟩
  · by_cases hhead : (dottedSegments e.1).head? = some idKey
    · obtain ⟨rest, hsegments⟩ := List.head?_eq_some_iff.mp hhead
      refine iff_of_true ?_ (.inl hhead)
      simp only [lookup, hsegments, Json.reach_object, hid]
    · rw [lookup_project hincluded hapart he hhead, eq_comm]
      simp only [hhead, false_or]
      exact Json.reach_eq_toList_iff
  · by_cases hlisted : ∃ e ∈ projection, e.1 ≠ idKey
    · cases q with
      | nil =>
        obtain ⟨e, he, -⟩ := hlisted
        exact .inr ⟨⟨_, (Option.some.inj hread).symm⟩, e, he, List.nil_prefix,
          (dottedSegments_ne_nil e.1).symm⟩
      | cons s rest =>
        have hassembled := (assembled_project doc hincluded hapart hlisted).1
        rcases hassembled _ _ (List.cons_ne_nil s rest) hread with
          ⟨r, hr, hbegins, hsame⟩ | ⟨r, hr, hbegins, hne, hobject⟩
        · obtain ⟨e, he, -, rfl⟩ | rfl := origin_cases hr
          · exact .inl ⟨hsame, .inr (.inr ⟨e, he, hbegins⟩)⟩
          · exact .inl ⟨hsame, .inr (.inl hbegins)⟩
        · obtain ⟨e, he, -, rfl⟩ | rfl := origin_cases hr
          · exact .inr ⟨hobject, e, he, hbegins, hne⟩
          · obtain ⟨rfl, hrest⟩ := List.cons_prefix_cons.mp hbegins
            exact absurd (by rw [List.prefix_nil.mp hrest]) hne
    · have honly : ∀ e ∈ projection, e.1 = idKey := by simpa using hlisted
      have hempty : (selectedPaths projection).isEmpty = true := by
        rw [List.isEmpty_iff, selectedPaths, List.filter_eq_nil_iff]
        exact fun e he => by simp [honly e he]
      rw [project_of_included doc hincluded, if_pos hempty] at hread
      exact .inl ⟨hread, .inl honly⟩

end

/-- A chapter with tags, parts of its author, and footnotes. -/
def signedChapter : Object :=
  [("_id", .string "a"), ("tags", .array [.string "x", .string "y"]),
    ("by", .object [("name", .string "Ann"), ("town", .string "Ulm"), ("street", .string "Hof")]),
    ("footnotes", .array [.object [("t", .string "good")], .null])]

/-- A selection with two paths that begin alike, a position, and one path through the footnotes. -/
def chapterParts : Object :=
  [("by.name", Json.ofNat 1), ("by.town", Json.ofNat 1), ("tags.1", Json.ofNat 1),
    ("footnotes.t", Json.ofNat 1)]

/-- The parts of the author and the tag are kept at their places, the footnotes are not. -/
theorem project_keeps_signedChapter :
    (∀ e ∈ chapterParts, isIncluded e.2 = true) ∧
      (chapterParts.Pairwise fun a b => ¬ Overlap (dottedSegments a.1) (dottedSegments b.1)) ∧
      signedChapter.project chapterParts =
        [("_id", .string "a"), ("by", .object [("name", .string "Ann"), ("town", .string "Ulm")]),
          ("tags", .object [("1", .string "y")])] ∧
      ∀ e ∈ chapterParts,
        (signedChapter.project chapterParts).lookup e.1 = signedChapter.lookup e.1 ↔
          (dottedSegments e.1).head? = some idKey ∨
            ¬ Json.FansOut (dottedSegments e.1) (.object signedChapter) := by
  have hincluded : ∀ e ∈ chapterParts, isIncluded e.2 = true := by decide
  have hapart : chapterParts.Pairwise fun a b =>
      ¬ Overlap (dottedSegments a.1) (dottedSegments b.1) := by decide
  have hname : copyPath signedChapter [("_id", .string "a")] "by.name" =
      [("_id", .string "a"), ("by", .object [("name", .string "Ann")])] := rfl
  have htown : copyPath signedChapter
        [("_id", .string "a"), ("by", .object [("name", .string "Ann")])] "by.town" =
      [("_id", .string "a"), ("by", .object [("name", .string "Ann"), ("town", .string "Ulm")])] :=
    rfl
  have htag : copyPath signedChapter
        [("_id", .string "a"), ("by", .object [("name", .string "Ann"), ("town", .string "Ulm")])]
        "tags.1" =
      [("_id", .string "a"), ("by", .object [("name", .string "Ann"), ("town", .string "Ulm")]),
        ("tags", .object [("1", .string "y")])] := rfl
  have hfootnotes : signedChapter.getPath? "footnotes.t" = none := rfl
  have hselected : selectedPaths chapterParts = chapterParts := rfl
  refine ⟨hincluded, hapart, ?_, (project_keeps hincluded hapart).1⟩
  rw [project_of_included _ hincluded, hselected, if_neg (by decide), keepPaths_eq_foldl]
  have hid : signedChapter.idEntry = [("_id", .string "a")] := rfl
  simp only [chapterParts, List.map_cons, List.map_nil, List.foldl_cons, List.foldl_nil, hid, hname,
    htown, htag]
  rw [copyPath, hfootnotes]

end Object

/-- Footnotes have a text, which is stored as `t`. -/
def footnoteType : DocumentType where
  name := "Footnote"
  className := "Footnote"
  collection := none
  fields := [{ Field.ofKind "text" (.scalar .string) with storageName := "t" }]
  primaryKey := none
  isDynamic := false
  allowsInheritance := false
  superclass := none

/-- Chapters have a list of footnotes. -/
def chapterType : DocumentType where
  name := "Chapter"
  className := "Chapter"
  collection := some "chapters"
  fields := [{ Field.ofKind "id" (.scalar .objectId) with storageName := idKey },
    Field.list "footnotes" (.embedded footnoteType)]
  primaryKey := some "id"
  isDynamic := false
  allowsInheritance := false
  superclass := none

theorem chapterType_built : footnoteType.Built ∧ chapterType.Built := by
  have hfootnote : footnoteType.Built :=
    ⟨(Declaration.embedded "Footnote").withField
      { Field.ofKind "text" (.scalar .string) with storageName := "t" }, rfl⟩
  exact ⟨hfootnote, ((Declaration.document "Chapter").inCollection "chapters").withField
    (.list "footnotes" (.embedded footnoteType)), rfl⟩

/-- The chapters with the texts of their footnotes only. -/
def footnoteTexts : Selection := ⟨chapterType, .empty, [], ["footnotes__text"], 0, none, none⟩

/-- The path that such a selection sends to the store leads to nothing in what the store sends back,
while a filter finds the text of a footnote there. -/
theorem footnoteTexts_not_kept : chapterType.Built ∧ ∃ options projection,
    footnoteTexts.findOptions ⟨.empty, .standard⟩ = .ok options ∧
      options.projection = some projection ∧
      (∀ e ∈ projection, Object.isIncluded e.2 = true) ∧
      (projection.Pairwise fun a b => ¬ Overlap (dottedSegments a.1) (dottedSegments b.1)) ∧
      ∃ e ∈ projection, (Object.signedChapter.project projection).lookup e.1 = [] ∧
        Object.signedChapter.lookup e.1 = [.string "good"] := by
  have hpath : footnoteTexts.storedPath ⟨.empty, .standard⟩ "footnotes__text" =
      .ok "footnotes.t" := by
    have hsegments : keywordSegments (joinStrings "__" (dottedSegments "footnotes__text")) =
        ["footnotes", "text"] := rfl
    rw [Selection.storedPath, hsegments]
    rfl
  have hpaths : footnoteTexts.only.mapM (footnoteTexts.storedPath ⟨.empty, .standard⟩) =
      .ok ["footnotes.t"] := by
    have honly : footnoteTexts.only = ["footnotes__text"] := rfl
    rw [honly, List.mapM_cons, hpath]
    rfl
  have hoptions : footnoteTexts.findOptions ⟨.empty, .standard⟩ =
      .ok ⟨some [("footnotes.t", Json.ofNat 1)], [], none, 0⟩ := by
    rw [Selection.findOptions, hpaths]
    rfl
  have hkept : Object.signedChapter.project [("footnotes.t", Json.ofNat 1)] =
      [("_id", .string "a")] := rfl
  exact ⟨chapterType_built.2, _, _, hoptions, rfl, by decide, by decide, _,
    List.mem_singleton_self _, by rw [hkept]; rfl, rfl⟩

end DocumentMapper
