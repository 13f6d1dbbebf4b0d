import DocumentMapper.Proofs.Content
import DocumentMapper.Proofs.StoredNumbers
import DocumentMapper.Proofs.StoredTrees

/-!
# Stored values that pass through memory

A dynamic attribute, and a field that holds anything, read a stored value by its structure alone and
store it again the same way. An object in the shape of a reference becomes a reference. Everything
else keeps its structure: lists, dicts and texts come back as they were, in any order of keys.

Numbers in memory are signed words and binary64 numbers. A stored whole number beyond the signed
words becomes the nearest binary64 number, and comes back as that.

## Main results

* `Value.plain_ofJson`: a stored value without references comes back with such numbers rounded, so
  it comes back as it was exactly if it has none;
* `largestWhole_not_back`: the largest whole number does not come back.
-/

namespace DocumentMapper

open Drawing Number

/-! ### Parts of stored values -/

/-- A stored value stands somewhere in another one. -/
inductive Json.StandsIn (part : Json) : Json → Prop
  | self : StandsIn part part
  | item {items : List Json} {j : Json} (hj : j ∈ items) (h : StandsIn part j) :
      StandsIn part (.array items)
  | entry {es : Object} {e : String × Json} (he : e ∈ es) (h : StandsIn part e.2) :
      StandsIn part (.object es)

/-- The entries have the shape of a stored reference: a collection and an id, or an object in an
envelope. -/
def Object.IsReferenceShaped (es : Object) : Prop :=
  (∃ collection id, es.get? "$ref" = some (.string collection) ∧ es.get? "$id" = some id) ∨
    ∃ inner, es.get? "_ref" = some (.object inner)

/-- No object in the value has the shape of a reference. -/
def Json.ReferenceFree (j : Json) : Prop :=
  ∀ es : Object, (Json.object es).StandsIn j → ¬ es.IsReferenceShaped

/-- A stored value becomes another one by rounding: a whole number beyond the signed words becomes
the nearest binary64 number. Everything else stays, and objects keep their keys in some order. -/
inductive Json.Rounds : Json → Json → Prop
  | null : Rounds .null .null
  | bool (b : Bool) : Rounds (.bool b) (.bool b)
  | word {n : Whole} (h : n.val < 9223372036854775808) : Rounds (.whole n) (.whole n)
  | beyond {n : Whole} {x : Binary64} (h : 9223372036854775808 ≤ n.val) (hx : x.IsNearest n.val) :
      Rounds (.whole n) (.float x)
  | float (x : Binary64) : Rounds (.float x) (.float x)
  | string (s : String) : Rounds (.string s) (.string s)
  | array {items js : List Json} (h : List.Forall₂ Rounds items js) :
      Rounds (.array items) (.array js)
  | object {es fs : Object} (h : ∀ key, Option.Rel Rounds (es.get? key) (fs.get? key)) :
      Rounds (.object es) (.object fs)

theorem Json.ReferenceFree.of_item {items : List Json} (h : (Json.array items).ReferenceFree)
    {j : Json} (hj : j ∈ items) : j.ReferenceFree :=
  fun es hes => h es (.item hj hes)

theorem Json.ReferenceFree.of_entry {es : Object} (h : (Json.object es).ReferenceFree)
    {e : String × Json} (he : e ∈ es) : e.2.ReferenceFree :=
  fun fs hfs => h fs (.entry he hfs)

/-! ### No references -/

theorem innerReference?_eq (es : Object) :
    innerReference? es = (es.get? "_ref").bind Json.reference? := by
  induction es with
  | nil => rfl
  | cons e rest ih =>
    obtain ⟨key, j⟩ := e
    by_cases hkey : key = "_ref"
    · simp [innerReference?, Entries.get?, hkey]
    · simp [innerReference?, Entries.get?, hkey, ih]

/-- An object that has not the shape of a reference is none. -/
theorem Object.reference?_eq_none {es : Object} (h : ¬ es.IsReferenceShaped) :
    (Json.object es).reference? = none := by
  obtain ⟨hpair, henvelope⟩ := not_or.mp h
  rw [Json.reference?]
  split
  · rename_i collection id hcollection hid
    exact absurd ⟨collection, id, hcollection, hid⟩ hpair
  · rw [innerReference?_eq, Option.map_eq_none_iff]
    cases hinner : es.get? "_ref" with
    | none => rfl
    | some j =>
      cases j with
      | object inner => exact absurd ⟨inner, hinner⟩ henvelope
      | _ => rfl

/-! ### Coming back -/

/-- The value that a stored value becomes in memory is stored as the rounded value. -/
def Json.ComesBackRounded (j : Json) : Prop :=
  ∃ j', (Value.ofJson j).plain.Yields j' ∧ j.Rounds j' ∧ j'.WellFormed

/-- A whole number comes back as it was, or as the nearest binary64 number. -/
theorem comesBackRounded_whole (n : Whole) : (Json.whole n).ComesBackRounded := by
  rw [Json.ComesBackRounded, Value.ofJson]
  cases hword : n.toInt64? with
  | some w =>
    have hlt : n.val < 9223372036854775808 := by
      rw [← Whole.ofInt64_of_toInt64? hword]
      exact w.toInt_lt
    refine ⟨.whole n, ?_, .word hlt, trivial⟩
    rw [← Whole.ofInt64_of_toInt64? hword]
    exact .pure _
  | none =>
    have hle : 9223372036854775808 ≤ n.val := by
      have hlower := n.lower
      unfold Whole.toInt64? word? at hword
      split at hword
      · cases hword
      · omega
    obtain ⟨x, hx, hnearest⟩ := Double.exists_isNearest n
    refine ⟨.float x, ?_, .beyond hle hnearest, trivial⟩
    rw [hx]
    exact .pure _

/-- Entries are stored under their keys. -/
theorem exists_yields_plainEntries {entries : List (String × Value)} {P : String → Json → Prop}
    (h : ∀ e ∈ entries, ∃ j, e.2.plain.Yields j ∧ P e.1 j) :
    ∃ o, (plainEntries entries).Yields o ∧ o.map Prod.fst = entries.map Prod.fst ∧
      ∀ e ∈ o, P e.1 e.2 := by
  induction entries with
  | nil => exact ⟨[], .pure _, rfl, fun e he => absurd he List.not_mem_nil⟩
  | cons e rest ih =>
    obtain ⟨k, v⟩ := e
    obtain ⟨⟨j, hj, hP⟩, hrest⟩ := List.forall_mem_cons.mp h
    obtain ⟨o, ho, hkeys, hall⟩ := ih hrest
    refine ⟨(k, j) :: o, .bind hj (.bind ho (.pure _)), ?_, List.forall_mem_cons.mpr ⟨hP, hall⟩⟩
    rw [List.map_cons, List.map_cons, hkeys]

theorem keys_ofEntries (es : List (String × Json)) :
    (Value.ofEntries es).map Prod.fst = es.map Prod.fst := by
  induction es with
  | nil => rfl
  | cons e rest ih =>
    obtain ⟨key, j⟩ := e
    rw [Value.ofEntries, List.map_cons, List.map_cons, ih]

/-- An object comes back under its keys if its values do. -/
theorem comesBackRounded_object {es : Object} (hkeys : (es.map Prod.fst).Nodup)
    (hreference : (Json.object es).reference? = none) (h : ∀ e ∈ es, e.2.ComesBackRounded) :
    (Json.object es).ComesBackRounded := by
  have hpairs : ∀ key, Entries.get? (Entries.ofPairs (Value.ofEntries es)) key =
      (es.get? key).map Value.ofJson := by
    intro key
    have hnodup : ((Value.ofEntries es).map Prod.fst).Nodup := by
      rwa [keys_ofEntries]
    rw [Entries.get?_ofPairs hnodup, get?_ofEntries]
  have hsorted := Entries.sorted_ofPairs (Value.ofEntries es)
  have hplain : ∀ e ∈ Entries.ofPairs (Value.ofEntries es), ∃ j', e.2.plain.Yields j' ∧
      j'.WellFormed ∧ ∃ j, es.get? e.1 = some j ∧ j.Rounds j' := by
    rintro ⟨key, v⟩ he
    have hget := Entries.get?_of_mem hsorted.nodup he
    rw [hpairs] at hget
    obtain ⟨j, hj, rfl⟩ := Option.map_eq_some_iff.mp hget
    obtain ⟨j', hj', hrounds, hwell⟩ := h _ (Entries.mem_of_get? hj)
    exact ⟨j', hj', hwell, j, hj, hrounds⟩
  obtain ⟨o, ho, hsame, hvalues⟩ := exists_yields_plainEntries
    (P := fun key j' => j'.WellFormed ∧ ∃ j, es.get? key = some j ∧ j.Rounds j') hplain
  refine ⟨.object o, ?_, .object fun key => ?_, Json.wellFormed_object.mpr
    ⟨hsame ▸ hsorted.nodup, fun e he => (hvalues e he).1⟩⟩
  · rw [Value.ofJson, hreference]
    exact .bind ho (.pure _)
  · cases hget : o.get? key with
    | some j' =>
      obtain ⟨-, j, hj, hrounds⟩ := hvalues _ (Entries.mem_of_get? hget)
      rw [hj]
      exact .some hrounds
    | none =>
      have hnone : es.get? key = none := by
        rw [Entries.get?_eq_none_iff, hsame, Entries.mem_keys_ofPairs, keys_ofEntries] at hget
        exact Entries.get?_eq_none_iff.mpr hget
      rw [hnone]
      exact .none

mutual

/-- **A stored value without references comes back rounded.** -/
theorem Json.comesBackRounded : ∀ (j : Json), j.WellFormed → j.ReferenceFree → j.ComesBackRounded
  | .null, _, _ => ⟨.null, .pure _, .null, trivial⟩
  | .bool b, _, _ => ⟨.bool b, .pure _, .bool b, trivial⟩
  | .whole n, _, _ => comesBackRounded_whole n
  | .float x, _, _ => ⟨.float x, .pure _, .float x, trivial⟩
  | .string s, _, _ => ⟨.string s, .pure _, .string s, trivial⟩
  | .array items, hwell, hfree => by
    obtain ⟨js, hjs, hrounds, hwells⟩ :=
      comesBackRounded_items items hwell fun j hj => hfree.of_item hj
    exact ⟨.array js, .bind hjs (.pure _), .array hrounds, Json.wellFormed_array.mpr hwells⟩
  | .object es, hwell, hfree => by
    obtain ⟨hkeys, hvalues⟩ := Json.wellFormed_object.mp hwell
    exact comesBackRounded_object hkeys (Object.reference?_eq_none (hfree es .self))
      (comesBackRounded_entries es hvalues fun e he => hfree.of_entry he)
termination_by structural j => j

/-- The same item by item. -/
theorem comesBackRounded_items : ∀ (items : List Json), itemsWellFormed items →
    (∀ j ∈ items, j.ReferenceFree) →
    ∃ js, (plainItems (Value.ofItems items)).Yields js ∧ List.Forall₂ Json.Rounds items js ∧
      ∀ j ∈ js, j.WellFormed
  | [], _, _ => ⟨[], .pure _, .nil, fun j hj => absurd hj List.not_mem_nil⟩
  | j :: rest, hwell, hfree => by
    obtain ⟨hj, hrest⟩ := List.forall_mem_cons.mp hfree
    obtain ⟨j', hj', hrounds, hwell'⟩ := Json.comesBackRounded j hwell.1 hj
    obtain ⟨js, hjs, hroundsRest, hwells⟩ := comesBackRounded_items rest hwell.2 hrest
    exact ⟨j' :: js, .bind hj' (.bind hjs (.pure _)), .cons hrounds hroundsRest,
      List.forall_mem_cons.mpr ⟨hwell', hwells⟩⟩
termination_by structural items => items

/-- The same for the values of entries. -/
theorem comesBackRounded_entries : ∀ (es : List (String × Json)), (∀ e ∈ es, e.2.WellFormed) →
    (∀ e ∈ es, e.2.ReferenceFree) → ∀ e ∈ es, e.2.ComesBackRounded
  | [], _, _ => fun e he => absurd he List.not_mem_nil
  | (_, j) :: rest, hwell, hfree => by
    obtain ⟨hj, hrest⟩ := List.forall_mem_cons.mp hfree
    obtain ⟨hjwell, hrestwell⟩ := List.forall_mem_cons.mp hwell
    exact List.forall_mem_cons.mpr ⟨Json.comesBackRounded j hjwell hj,
      comesBackRounded_entries rest hrestwell hrest⟩
termination_by structural es => es

end

/-! ### Coming back unchanged -/

/-- Every whole number in the value is a signed word. -/
def Json.HasOnlyWords (j : Json) : Prop :=
  ∀ n : Whole, (Json.whole n).StandsIn j → n.val < 9223372036854775808

theorem Json.HasOnlyWords.of_item {items : List Json} (h : (Json.array items).HasOnlyWords)
    {j : Json} (hj : j ∈ items) : j.HasOnlyWords :=
  fun n hn => h n (.item hj hn)

theorem Json.HasOnlyWords.of_entry {es : Object} (h : (Json.object es).HasOnlyWords)
    {e : String × Json} (he : e ∈ es) : e.2.HasOnlyWords :=
  fun n hn => h n (.entry he hn)

/-- A whole number beyond the signed words shows after rounding, wherever it stands. -/
theorem Json.StandsIn.content_ne {n : Whole} (hn : 9223372036854775808 ≤ n.val) {j j' : Json}
    (h : (Json.whole n).StandsIn j) (hwell : j.WellFormed) (hrounds : j.Rounds j') :
    j'.content ≠ j.content := by
  induction h generalizing j' with
  | self =>
    cases hrounds with
    | word hlt => omega
    | beyond _ _ => exact nofun
  | @item items j hj _ ih =>
    cases hrounds with
    | @array _ js hitems =>
      obtain ⟨i, hi, rfl⟩ := List.mem_iff_getElem.mp hj
      have hi' : i < js.length := hitems.length_eq ▸ hi
      have hitem : items[i].Rounds js[i] := hitems.get hi hi'
      intro hsame
      simp only [Json.content, contentItems_eq_map, Content.array.injEq] at hsame
      refine ih (Json.wellFormed_array.mp hwell _ (List.getElem_mem hi)) hitem ?_
      simpa [hi, hi'] using congrArg (fun cs => cs[i]?) hsame
  | @entry es e he _ ih =>
    obtain ⟨hkeys, hvalues⟩ := Json.wellFormed_object.mp hwell
    cases hrounds with
    | @object _ fs hentries =>
      have hentry := hentries e.1
      rw [Entries.get?_of_mem hkeys he] at hentry
      intro hsame
      simp only [Json.content, Content.object.injEq] at hsame
      have hread := congrFun hsame e.1
      rw [Entries.get?_content, Entries.get?_content, Entries.get?_of_mem hkeys he] at hread
      generalize fs.get? e.1 = part at hentry hread
      cases hentry with
      | some hvalue => exact ih (hvalues e he) hvalue (Option.some.inj hread)

mutual

/-- Rounding leaves a value alone in which all whole numbers are signed words. -/
theorem Json.Rounds.content_eq : ∀ (j : Json) {j' : Json}, j.Rounds j' → j.HasOnlyWords →
    j'.content = j.content
  | .null, _, h, _ => by cases h; rfl
  | .bool _, _, h, _ => by cases h; rfl
  | .whole n, _, h, hwords => by
    cases h with
    | word => rfl
    | beyond hle _ => exact absurd (hwords n .self) (by omega)
  | .float _, _, h, _ => by cases h; rfl
  | .string _, _, h, _ => by cases h; rfl
  | .array items, _, h, hwords => by
    cases h with
    | array hitems =>
      simp only [Json.content]
      rw [contentItems_of_rounds items hitems fun j hj => hwords.of_item hj]
  | .object es, _, h, hwords => by
    cases h with
    | @object _ fs hentries =>
      simp only [Json.content, Content.object.injEq]
      funext key
      rw [Entries.get?_content, Entries.get?_content]
      have hentry := hentries key
      cases hget : Entries.get? es key with
      | none =>
        rw [hget] at hentry
        generalize Entries.get? fs key = part at hentry
        cases hentry
        rfl
      | some j =>
        rw [hget] at hentry
        generalize Entries.get? fs key = part at hentry
        cases hentry with
        | some hvalue =>
          exact congrArg some (content_of_rounds_entry es (fun e he => hwords.of_entry he) (key, j)
            (Entries.mem_of_get? hget) hvalue)
termination_by structural j => j

/-- The same item by item. -/
theorem contentItems_of_rounds : ∀ (items : List Json) {js : List Json},
    List.Forall₂ Json.Rounds items js → (∀ j ∈ items, j.HasOnlyWords) →
    contentItems js = contentItems items
  | [], _, h, _ => by cases h; rfl
  | j :: rest, _, h, hwords => by
    obtain ⟨hj, hrest⟩ := List.forall_mem_cons.mp hwords
    cases h with
    | cons hfirst hothers =>
      rw [contentItems, contentItems, Json.Rounds.content_eq j hfirst hj,
        contentItems_of_rounds rest hothers hrest]
termination_by structural items => items

/-- The same for the values of entries. -/
theorem content_of_rounds_entry : ∀ (es : List (String × Json)), (∀ e ∈ es, e.2.HasOnlyWords) →
    ∀ e ∈ es, ∀ {j' : Json}, e.2.Rounds j' → j'.content = e.2.content
  | [], _ => fun e he => absurd he List.not_mem_nil
  | (key, j) :: rest, hwords => by
    obtain ⟨hj, hrest⟩ := List.forall_mem_cons.mp hwords
    intro e he j' h
    rcases List.mem_cons.mp he with rfl | he
    · exact Json.Rounds.content_eq j h hj
    · exact content_of_rounds_entry rest hrest e he h
termination_by structural es => es

end

/-- **A stored value without references that is read and stored again.** It can be stored, and comes
back with whole numbers beyond the signed words rounded. So it comes back as it was exactly if it has
no such number in it. -/
theorem Value.plain_ofJson {j : Json} (hwell : j.WellFormed) (hfree : j.ReferenceFree) :
    ∃ j', (Value.ofJson j).plain.Yields j' ∧ j.Rounds j' ∧
      (j'.equal j = true ↔ j.HasOnlyWords) := by
  obtain ⟨j', hj', hrounds, hwell'⟩ := j.comesBackRounded hwell hfree
  refine ⟨j', hj', hrounds, ?_⟩
  rw [Json.equal_iff_content j' j hwell' hwell]
  refine ⟨fun hsame n hn => ?_, fun hwords => hrounds.content_eq j hwords⟩
  by_contra hbeyond
  exact hn.content_ne (by omega) hwell hrounds hsame

/-! ### The largest whole number -/

/-- The largest whole number that is stored. -/
def largestWhole : Whole :=
  ⟨18446744073709551615, by decide, by decide⟩

/-- A note whose count is the largest whole number. -/
def countedNote : Json :=
  .object [("count", .whole largestWhole), ("tags", .array [.string "a", .object []])]

theorem countedNote_referenceFree : countedNote.ReferenceFree := by
  intro es h
  cases h with
  | self => simp [Object.IsReferenceShaped, Entries.get?]
  | entry he h =>
    rcases List.mem_pair.mp he with rfl | rfl
    · cases h
    · cases h with
      | item hj h =>
        rcases List.mem_pair.mp hj with rfl | rfl
        · cases h
        · cases h with
          | self => simp [Object.IsReferenceShaped, Entries.get?]
          | entry he _ => exact absurd he List.not_mem_nil

/-- The note comes back, and not as it was. -/
theorem plain_ofJson_countedNote : countedNote.WellFormed ∧ countedNote.ReferenceFree ∧
    ∃ j', (Value.ofJson countedNote).plain.Yields j' ∧ countedNote.Rounds j' ∧
      j'.equal countedNote = false := by
  have hwell : countedNote.WellFormed := by
    simp [countedNote, Json.WellFormed]
  obtain ⟨j', hj', hrounds, hsame⟩ := Value.plain_ofJson hwell countedNote_referenceFree
  refine ⟨hwell, countedNote_referenceFree, j', hj', hrounds, ?_⟩
  rw [← Bool.not_eq_true, hsame]
  intro hwords
  have hlt := hwords largestWhole (.entry List.mem_cons_self .self)
  exact absurd hlt (by decide)

/-- The largest whole number does not come back. -/
theorem largestWhole_not_back : ¬ (∀ j : Json, j.WellFormed → j.ReferenceFree →
    ∃ j', (Value.ofJson j).plain.Yields j' ∧ j'.equal j = true) := by
  intro h
  have hwell : (Json.whole largestWhole).WellFormed := trivial
  have hfree : (Json.whole largestWhole).ReferenceFree := fun es hes => nomatch hes
  obtain ⟨j, hj, hsame⟩ := h _ hwell hfree
  obtain ⟨j', hj', hrounds, hwell'⟩ := Json.comesBackRounded _ hwell hfree
  obtain rfl := hj.eq_of_gives hj'.gives
  refine Json.StandsIn.content_ne (n := largestWhole) (by decide) .self hwell hrounds ?_
  exact (Json.equal_iff_content _ _ hwell' hwell).mp hsame

end DocumentMapper
