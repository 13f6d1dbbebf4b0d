import DocumentMapper.Pattern.Search

/-!
# What a search finds

A search keeps marks at the places of a text that a match can have come to, and advances all of them
at once. That is right for every pattern: the marks behind a pattern are the ends of its spans from
the marks in front of it. A repetition without bound is advanced as often as the text has places,
since a span that goes on is the longer for it, and one that stays in its place can be left out.

## Main results

* `Follows`: when a function on marks follows a relation between places;
* `spans_rep_iff`: a repetition spans what its pattern spans so many times in a row;
* `Node.follows_advance`: the marks follow the spans of the pattern;
* `Node.search_iff`: a search finds a pattern exactly where it spans a part of the text.
-/

namespace DocumentMapper.Pattern

/-! ### Relations that are gone along several times -/

/-- A relation leads from one place to another in the given number of steps. -/
inductive Times (R : Nat → Nat → Prop) : Nat → Nat → Nat → Prop
  | zero (i : Nat) : Times R 0 i i
  | succ {n i j k : Nat} : R i j → Times R n j k → Times R (n + 1) i k

section

variable {R S : Nat → Nat → Prop} {n i j k : Nat}

theorem times_zero_iff : Times R 0 i k ↔ i = k := by
  constructor
  · rintro ⟨⟩
    rfl
  · rintro rfl
    exact .zero i

theorem times_succ_iff : Times R (n + 1) i k ↔ ∃ j, R i j ∧ Times R n j k := by
  constructor
  · rintro (_ | ⟨hfirst, hrest⟩)
    exact ⟨_, hfirst, hrest⟩
  · rintro ⟨j, hfirst, hrest⟩
    exact .succ hfirst hrest

/-- Steps that go nowhere can be left out. -/
theorem Times.shorten (hforward : ∀ i j, R i j → i ≤ j) (h : Times R n i k) :
    ∃ m ≤ k - i, Times R m i k := by
  induction h with
  | zero i => exact ⟨0, Nat.zero_le _, .zero i⟩
  | @succ n i j k hfirst hrest ih =>
    obtain ⟨m, hm, hshort⟩ := ih
    have hle := hforward i j hfirst
    by_cases hstay : i = j
    · subst hstay
      exact ⟨m, hm, hshort⟩
    · by_cases hk : m = 0
      · subst hk
        obtain rfl := times_zero_iff.mp hshort
        exact ⟨1, by omega, .succ hfirst hshort⟩
      · exact ⟨m + 1, by omega, .succ hfirst hshort⟩

/-- Steps that stay below a bound stay there, however many they are. -/
theorem Times.le_of_le {b : Nat} (hbelow : ∀ i j, R i j → i ≤ b → j ≤ b) (h : Times R n i k)
    (hi : i ≤ b) : k ≤ b := by
  induction h with
  | zero i => exact hi
  | succ hfirst _ ih => exact ih (hbelow _ _ hfirst hi)

/-- A step or none, a number of times, is so many steps at most. -/
theorem times_or_iff :
    Times (fun i k => i = k ∨ R i k) n i k ↔ ∃ t ≤ n, Times R t i k := by
  induction n generalizing i with
  | zero =>
    rw [times_zero_iff]
    constructor
    · rintro rfl
      exact ⟨0, Nat.le_refl _, .zero i⟩
    · rintro ⟨t, ht, h⟩
      obtain rfl : t = 0 := by omega
      exact times_zero_iff.mp h
  | succ n ih =>
    rw [times_succ_iff]
    constructor
    · rintro ⟨j, hstep, hrest⟩
      obtain ⟨t, ht, h⟩ := ih.mp hrest
      rcases hstep with rfl | hstep
      · exact ⟨t, by omega, h⟩
      · exact ⟨t + 1, by omega, .succ hstep h⟩
    · rintro ⟨t, ht, h⟩
      cases h with
      | zero => exact ⟨_, .inl rfl, ih.mpr ⟨0, Nat.zero_le _, .zero _⟩⟩
      | @succ t _ j _ hstep hrest =>
        exact ⟨j, .inr hstep, ih.mpr ⟨t, by omega, hrest⟩⟩

/-! ### Functions on marks -/

/-- A function on marks follows a relation: it marks the places that the relation leads to from the
marked places. -/
def Follows (size : Nat) (f : Marks → Marks) (R : Nat → Nat → Prop) : Prop :=
  ∀ m : Marks, m.length = size → (f m).length = size ∧
    ∀ k, (f m)[k]? = some true ↔ ∃ i, m[i]? = some true ∧ R i k

namespace Follows

variable {size : Nat} {f g : Marks → Marks}

/-- What relates the marked places alike is followed alike. -/
theorem congr (h : Follows size f R) (hrel : ∀ i < size, ∀ k, R i k ↔ S i k) : Follows size f S := by
  intro m hm
  refine ⟨(h m hm).1, fun k => ((h m hm).2 k).trans ?_⟩
  constructor
  · rintro ⟨i, hi, hr⟩
    have hlt : i < size := hm ▸ (List.getElem?_eq_some_iff.mp hi).1
    exact ⟨i, hi, (hrel i hlt k).mp hr⟩
  · rintro ⟨i, hi, hs⟩
    have hlt : i < size := hm ▸ (List.getElem?_eq_some_iff.mp hi).1
    exact ⟨i, hi, (hrel i hlt k).mpr hs⟩

theorem refl (size : Nat) : Follows size (fun m => m) (· = ·) := by
  intro m hm
  refine ⟨hm, fun k => ⟨fun h => ⟨k, h, rfl⟩, ?_⟩⟩
  rintro ⟨i, hi, rfl⟩
  exact hi

/-- One relation behind the other. -/
theorem comp (hf : Follows size f R) (hg : Follows size g S) :
    Follows size (fun m => g (f m)) fun i k => ∃ j, R i j ∧ S j k := by
  intro m hm
  obtain ⟨hlength, hmarks⟩ := hf m hm
  refine ⟨(hg _ hlength).1, fun k => ?_⟩
  rw [(hg _ hlength).2 k]
  constructor
  · rintro ⟨j, hj, hs⟩
    obtain ⟨i, hi, hr⟩ := (hmarks j).mp hj
    exact ⟨i, hi, j, hr, hs⟩
  · rintro ⟨i, hi, j, hr, hs⟩
    exact ⟨j, (hmarks j).mpr ⟨i, hi, hr⟩, hs⟩

/-- One of two relations. -/
theorem or (hf : Follows size f R) (hg : Follows size g S) :
    Follows size (fun m => (f m).or (g m)) fun i k => R i k ∨ S i k := by
  intro m hm
  obtain ⟨hflength, hfmarks⟩ := hf m hm
  obtain ⟨hglength, hgmarks⟩ := hg m hm
  refine ⟨by simp [Marks.or, hflength, hglength], fun k => ?_⟩
  have hor : ((f m).or (g m))[k]? = some true ↔
      (f m)[k]? = some true ∨ (g m)[k]? = some true := by
    rw [Marks.or, List.getElem?_zipWith]
    by_cases hk : k < size
    · rw [List.getElem?_eq_getElem (hflength ▸ hk), List.getElem?_eq_getElem (hglength ▸ hk)]
      simp
    · rw [List.getElem?_eq_none (by omega), List.getElem?_eq_none (by omega)]
      simp
  rw [hor, hfmarks k, hgmarks k]
  constructor
  · rintro (⟨i, hi, hr⟩ | ⟨i, hi, hs⟩)
    · exact ⟨i, hi, .inl hr⟩
    · exact ⟨i, hi, .inr hs⟩
  · rintro ⟨i, hi, hr | hs⟩
    · exact .inl ⟨i, hi, hr⟩
    · exact .inr ⟨i, hi, hs⟩

/-- A relation a number of times. -/
theorem iterate (hf : Follows size f R) (n : Nat) :
    Follows size (Pattern.iterate f n) (Times R n) := by
  induction n with
  | zero => exact (refl size).congr fun i _ k => times_zero_iff.symm
  | succ n ih => exact (hf.comp ih).congr fun i _ k => times_succ_iff.symm

/-- A relation at most a number of times. -/
theorem iterate_or (hf : Follows size f R) (n : Nat) :
    Follows size (Pattern.iterate (fun m => Marks.or m (f m)) n)
      fun i k => ∃ t ≤ n, Times R t i k := by
  exact (((refl size).or hf).iterate n).congr fun i _ k => times_or_iff

end Follows

end

/-! ### Spans -/

section

variable {s : Subject} {p a : Node} {min i j k : Nat} {max : Option Nat}

/-- A span does not go back, and it stays within the text. -/
theorem Node.Spans.bounds (h : p.Spans s i j) :
    i ≤ j ∧ (i ≤ s.chars.length → j ≤ s.chars.length) := by
  induction h with
  | empty i => exact ⟨Nat.le_refl i, fun h => h⟩
  | char hc _ =>
    have hlt := (List.getElem?_eq_some_iff.mp hc).1
    exact ⟨Nat.le_succ _, fun _ => hlt⟩
  | assertion _ _ => exact ⟨Nat.le_refl _, fun h => h⟩
  | seq _ _ iha ihb => exact ⟨Nat.le_trans iha.1 ihb.1, fun h => ihb.2 (iha.2 h)⟩
  | altLeft _ ih => exact ih
  | altRight _ ih => exact ih
  | repDone i => exact ⟨Nat.le_refl i, fun h => h⟩
  | repMin _ _ iha ihb => exact ⟨Nat.le_trans iha.1 ihb.1, fun h => ihb.2 (iha.2 h)⟩
  | repMore _ _ _ iha ihb => exact ⟨Nat.le_trans iha.1 ihb.1, fun h => ihb.2 (iha.2 h)⟩

/-- The number of times that a repetition has left is within its bound. -/
def Within (t : Nat) (max : Option Nat) : Prop :=
  ∀ b, max = some b → t ≤ b

theorem within_pred {t : Nat} (hmax : max ≠ some 0) :
    Within t (max.map (· - 1)) ↔ Within (t + 1) max := by
  unfold Within
  cases max with
  | none => simp
  | some b =>
    have hb : b ≠ 0 := fun hb => hmax (hb ▸ rfl)
    simp only [Option.map_some, Option.some.injEq, forall_eq']
    omega

theorem within_zero (max : Option Nat) : Within 0 max :=
  fun _ _ => Nat.zero_le _

theorem map_sub_zero (max : Option Nat) : max.map (· - 0) = max := by
  cases max <;> rfl

theorem map_pred_sub (max : Option Nat) (min : Nat) :
    (max.map (· - 1)).map (· - min) = max.map (· - (min + 1)) := by
  cases max with
  | none => rfl
  | some b =>
    simp only [Option.map_some, Option.some.injEq]
    omega

/-- A repetition without a lower bound spans what its pattern spans in a row as often as it may. -/
theorem spans_rep_of_times {t : Nat} (h : Times (a.Spans s) t j k) {max : Option Nat}
    (hmax : Within t max) : (Node.rep a 0 max).Spans s j k := by
  induction h generalizing max with
  | zero i => exact .repDone i
  | succ hfirst hrest ih =>
    have hne : max ≠ some 0 := by
      rintro rfl
      exact absurd (hmax 0 rfl) (Nat.not_succ_le_zero _)
    exact .repMore hne hfirst (ih ((within_pred hne).mpr hmax))

/-- **A repetition spans what its pattern spans in a row**, first as often as it must and then as often
as it may. -/
theorem spans_rep_iff : (Node.rep a min max).Spans s i k ↔
    ∃ j, Times (a.Spans s) min i j ∧
      ∃ t, Within t (max.map (· - min)) ∧ Times (a.Spans s) t j k := by
  constructor
  · intro h
    generalize hp : Node.rep a min max = p at h
    induction h generalizing min max with
    | repDone i =>
      cases hp
      exact ⟨i, .zero i, 0, within_zero _, .zero i⟩
    | repMin hfirst hrest _ ih =>
      cases hp
      obtain ⟨j, hmin, t, ht, hmore⟩ := ih rfl
      rw [map_pred_sub] at ht
      exact ⟨j, .succ hfirst hmin, t, ht, hmore⟩
    | repMore hmax hfirst hrest _ ih =>
      cases hp
      obtain ⟨j, hmin, t, ht, hmore⟩ := ih rfl
      obtain rfl := times_zero_iff.mp hmin
      rw [map_sub_zero] at ht
      rw [map_sub_zero]
      exact ⟨_, .zero _, t + 1, (within_pred hmax).mp ht, .succ hfirst hmore⟩
    | _ => cases hp
  · rintro ⟨j, hmin, t, ht, hmore⟩
    induction hmin generalizing max with
    | zero i =>
      rw [map_sub_zero] at ht
      exact spans_rep_of_times hmore ht
    | @succ n _ _ _ hfirst hrest ih =>
      refine .repMin hfirst (ih ?_ hmore)
      rw [map_pred_sub]
      exact ht

end

/-! ### The marks of a pattern -/

/-- The places of a text have a neighbour on each side, or none. -/
theorem Subject.length_sides (cs : List Char) :
    (Subject.ofChars cs).sides.length = cs.length + 1 := by
  simp [Subject.ofChars]

section

variable {cs : List Char}

theorem follows_char (cs : List Char) (set : CharSet) :
    Follows (cs.length + 1) ((Node.char set).advance (.ofChars cs))
      ((Node.char set).Spans (.ofChars cs)) := by
  intro m hm
  refine ⟨by simp [Node.advance, Subject.ofChars, hm], fun k => ?_⟩
  cases k with
  | zero =>
    constructor
    · intro h
      cases Option.some.inj h
    · rintro ⟨i, -, ⟨⟩⟩
  | succ k =>
    rw [Node.advance, List.getElem?_cons_succ, List.getElem?_zipWith_eq_some]
    constructor
    · rintro ⟨marked, c, hmark, hc, hboth⟩
      obtain ⟨rfl, hset⟩ := Bool.and_eq_true_iff.mp hboth
      exact ⟨k, hmark, .char hc hset⟩
    · rintro ⟨i, hmark, hspan⟩
      cases hspan with
      | char hc hset => exact ⟨true, _, hmark, hc, hset⟩

theorem follows_assertion (cs : List Char) (x : Assertion) :
    Follows (cs.length + 1) ((Node.assertion x).advance (.ofChars cs))
      ((Node.assertion x).Spans (.ofChars cs)) := by
  intro m hm
  refine ⟨by simp [Node.advance, Subject.length_sides, hm], fun k => ?_⟩
  rw [Node.advance, List.getElem?_zipWith_eq_some]
  constructor
  · rintro ⟨marked, side, hmark, hside, hboth⟩
    obtain ⟨rfl, hholds⟩ := Bool.and_eq_true_iff.mp hboth
    exact ⟨k, hmark, .assertion hside hholds⟩
  · rintro ⟨i, hmark, hspan⟩
    cases hspan with
    | assertion hside hholds => exact ⟨true, _, hmark, hside, hholds⟩

/-- **The marks behind a pattern are the ends of its spans** from the marks in front of it. -/
theorem Node.follows_advance (cs : List Char) (p : Node) :
    Follows (cs.length + 1) (p.advance (.ofChars cs)) (p.Spans (.ofChars cs)) := by
  induction p with
  | empty =>
    refine (Follows.refl _).congr fun i _ k => ?_
    constructor
    · rintro rfl
      exact .empty i
    · rintro ⟨⟩
      rfl
  | char set => exact follows_char cs set
  | assertion x => exact follows_assertion cs x
  | seq a b iha ihb =>
    refine (iha.comp ihb).congr fun i _ k => ?_
    constructor
    · rintro ⟨j, ha, hb⟩
      exact .seq ha hb
    · rintro (_ | _ | _ | ⟨ha, hb⟩)
      exact ⟨_, ha, hb⟩
  | alt a b iha ihb =>
    refine (iha.or ihb).congr fun i _ k => ?_
    constructor
    · rintro (ha | hb)
      · exact .altLeft ha
      · exact .altRight hb
    · rintro (_ | _ | _ | _ | ha | hb)
      · exact .inl ha
      · exact .inr hb
  | rep a min max ih =>
    cases max with
    | some b =>
      refine ((ih.iterate min).comp (ih.iterate_or (b - min))).congr fun i _ k => ?_
      rw [spans_rep_iff]
      simp [Within]
    | none =>
      refine ((ih.iterate min).comp (ih.iterate_or (cs.length + 1))).congr fun i hi k => ?_
      rw [spans_rep_iff]
      constructor
      · rintro ⟨j, hmin, t, -, hmore⟩
        exact ⟨j, hmin, t, nofun, hmore⟩
      · rintro ⟨j, hmin, t, -, hmore⟩
        -- Without the steps that stay in their place no more are left than the text has places.
        obtain ⟨t', ht', hshort⟩ := hmore.shorten fun _ _ h => h.bounds.1
        have hj := hmin.le_of_le (fun _ _ h => h.bounds.2) (Nat.le_of_lt_succ hi)
        have hk : k ≤ cs.length := hmore.le_of_le (fun _ _ h => h.bounds.2) hj
        exact ⟨j, hmin, t', by omega, hshort⟩

/-- **A search finds a pattern exactly where it spans a part of the text.** -/
theorem Node.search_iff (p : Node) (text : String) :
    p.search text = true ↔
      ∃ i j, i ≤ text.toList.length ∧ p.Spans (.ofChars text.toList) i j := by
  have hall : (List.replicate (text.toList.length + 1) true).length = text.toList.length + 1 :=
    List.length_replicate
  obtain ⟨-, hends⟩ := p.follows_advance text.toList _ hall
  rw [Node.search, List.any_eq_true]
  constructor
  · rintro ⟨mark, hmem, hmark⟩
    obtain rfl : mark = true := hmark
    obtain ⟨j, hj⟩ := List.mem_iff_getElem?.mp hmem
    obtain ⟨i, hi, hspan⟩ := (hends j).mp hj
    have hlt := (List.getElem?_eq_some_iff.mp hi).1
    rw [hall] at hlt
    exact ⟨i, j, Nat.le_of_lt_succ hlt, hspan⟩
  · rintro ⟨i, j, hi, hspan⟩
    have hstart : (List.replicate (text.toList.length + 1) true)[i]? = some true := by
      rw [List.getElem?_replicate, if_pos (Nat.lt_succ_of_le hi)]
    exact ⟨true, List.mem_of_getElem? ((hends j).mpr ⟨i, hstart, hspan⟩), rfl⟩

end

end DocumentMapper.Pattern
