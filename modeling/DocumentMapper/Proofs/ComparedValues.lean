import DocumentMapper.Proofs.NearestDoubles
import DocumentMapper.Proofs.SameValues
import DocumentMapper.Store.Find

/-!
# Values that are compared

Values are comparable if they are of one kind: null, truth values, texts or numbers. Numbers are
compared exactly only as signed words, and by the nearest binary64 numbers if one of them is none.
Exchanging two values reverses their order.

What is not comparable counts as equal when documents are sorted. So a value can be taken for equal to
two values that are in order themselves: a text is, to all numbers, and a binary64 number is, to all
words that are rounded to it. `Json.Blurs` says when, and nothing else keeps the order from being
transitive.

## Main results

* `Json.compare?_eq_some_iff`: which values are comparable, and how;
* `Json.compare?_swap`: exchanging two values reverses their order;
* `Json.Blurs.order`, `Json.blurs_of_order`: a blur breaks transitivity, and nothing else does.
-/

namespace DocumentMapper

open Number

theorem compare_trans {α : Type} [Ord α] [Std.TransOrd α] {x y z : α}
    (hxy : Ord.compare x y ≠ .gt) (hyz : Ord.compare y z ≠ .gt) : Ord.compare x z ≠ .gt :=
  Ordering.isLE_iff_ne_gt.mp (Std.TransOrd.isLE_trans (Ordering.isLE_iff_ne_gt.mpr hxy)
    (Ordering.isLE_iff_ne_gt.mpr hyz))

namespace Json

variable {a b c : Json} {o : Ordering}

/-! ### Numbers -/

/-- The binary64 number nearest to a number, in units. -/
def nearest? : Json → Option Int
  | whole n => some (Binary64.nearest n.val)
  | float x => some x.units
  | _ => none

theorem nearest?_isSome (j : Json) : j.nearest?.isSome = j.isNumber := by
  cases j <;> rfl

/-- Every number has a finite nearest number. -/
theorem asDouble?_of_nearest? {u : Int} (h : a.nearest? = some u) :
    ∃ x, a.asDouble? = some (.finite x) ∧ x.units = u := by
  cases a with
  | whole n =>
    obtain ⟨x, hx, hunits⟩ := Double.ofInt_eq_finite n
    exact ⟨x, congrArg some hx, hunits.trans (Option.some.inj h)⟩
  | float x => exact ⟨x, rfl, Option.some.inj h⟩
  | _ => cases h

/-- The number nearest to a signed word. -/
theorem nearest?_of_asInt64? {n : Int64} (h : a.asInt64? = some n) :
    a.nearest? = some (Binary64.nearest n.toInt) := by
  cases a with
  | whole w =>
    obtain rfl := Whole.ofInt64_of_toInt64? h
    rfl
  | _ => cases h

/-! ### Comparable values -/

/-- How two values compare, where they are comparable. -/
inductive Compared : Json → Json → Ordering → Prop
  | null : Compared null null .eq
  | bool (x y : Bool) : Compared (bool x) (bool y) (Ord.compare x y)
  | string (s t : String) : Compared (string s) (string t) (Ord.compare s t)
  | words {a b : Json} {m n : Int64} (ha : a.asInt64? = some m) (hb : b.asInt64? = some n) :
      Compared a b (Ord.compare m n)
  | nearest {a b : Json} {u v : Int} (hno : a.asInt64? = none ∨ b.asInt64? = none)
      (ha : a.nearest? = some u) (hb : b.nearest? = some v) : Compared a b (Ord.compare u v)

/-- **Two values are comparable if they are of one kind**, numbers by their words or else by the
nearest binary64 numbers. -/
theorem compare?_eq_some_iff : a.compare? b = some o ↔ Compared a b o := by
  constructor
  · intro h
    unfold compare? at h
    split at h
    · obtain rfl := Option.some.inj h
      exact .null
    · obtain rfl := Option.some.inj h
      exact .string _ _
    · obtain rfl := Option.some.inj h
      exact .bool _ _
    · split at h
      · rename_i m n hm hn
        obtain rfl := Option.some.inj h
        exact .words hm hn
      · rename_i hno
        split at h
        · rename_i x y hx hy
          have hnearest : ∀ {j : Json} {d : Double}, j.asDouble? = some d →
              ∃ u, j.nearest? = some u := fun {j} {d} hd =>
            Option.isSome_iff_exists.mp
              ((nearest?_isSome j).trans ((asDouble?_isSome j).symm.trans (by rw [hd]; rfl)))
          obtain ⟨u, hu⟩ := hnearest hx
          obtain ⟨v, hv⟩ := hnearest hy
          obtain ⟨x', hx', rfl⟩ := asDouble?_of_nearest? hu
          obtain ⟨y', hy', rfl⟩ := asDouble?_of_nearest? hv
          obtain rfl := Option.some.inj (hx.symm.trans hx')
          obtain rfl := Option.some.inj (hy.symm.trans hy')
          obtain rfl := Option.some.inj h
          refine .nearest ?_ hu hv
          cases hm : a.asInt64? with
          | none => exact .inl rfl
          | some m =>
            cases hn : b.asInt64? with
            | none => exact .inr rfl
            | some n => exact (hno m n hm hn).elim
        · cases h
  · intro h
    cases h with
    | null => rfl
    | bool x y => rfl
    | string s t => rfl
    | words ha hb =>
      cases a with
      | whole n => simp [compare?, ha, hb]
      | _ => cases ha
    | nearest hno ha hb =>
      obtain ⟨x, hx, rfl⟩ := asDouble?_of_nearest? ha
      obtain ⟨y, hy, rfl⟩ := asDouble?_of_nearest? hb
      cases a with
      | whole n => rcases hno with hno | hno <;> simp [compare?, hno, hx, hy] <;> rfl
      | float f => rcases hno with hno | hno <;> simp [compare?, hno, hx, hy] <;> rfl
      | _ => cases ha

namespace Compared

variable {o' : Ordering} {u v : Int}

/-- Exchanging the values reverses the order. -/
theorem swap (h : Compared a b o) : Compared b a o.swap := by
  cases h with
  | null => exact .null
  | bool x y =>
    rw [← Std.OrientedOrd.eq_swap]
    exact .bool y x
  | string s t =>
    rw [← Std.OrientedOrd.eq_swap]
    exact .string t s
  | words ha hb =>
    rw [← Std.OrientedOrd.eq_swap]
    exact .words hb ha
  | nearest hno ha hb =>
    rw [← Std.OrientedOrd.eq_swap]
    exact .nearest hno.symm hb ha

theorem unique (h : Compared a b o) (h' : Compared a b o') : o = o' :=
  Option.some.inj ((compare?_eq_some_iff.mpr h).symm.trans (compare?_eq_some_iff.mpr h'))

/-- Numbers are comparable with numbers only. -/
theorem isNumber (h : Compared a b o) : a.isNumber = b.isNumber := by
  cases h with
  | null => rfl
  | bool x y => rfl
  | string s t => rfl
  | words ha hb => rw [isNumber_of_asInt64? ha, isNumber_of_asInt64? hb]
  | nearest _ ha hb => rw [← nearest?_isSome, ← nearest?_isSome, ha, hb]; rfl

/-- All numbers are comparable. -/
theorem of_isNumber (ha : a.isNumber = true) (hb : b.isNumber = true) :
    ∃ o, Compared a b o := by
  obtain ⟨u, hu⟩ := Option.isSome_iff_exists.mp ((nearest?_isSome a).trans ha)
  obtain ⟨v, hv⟩ := Option.isSome_iff_exists.mp ((nearest?_isSome b).trans hb)
  cases hm : a.asInt64? with
  | none => exact ⟨_, .nearest (.inl hm) hu hv⟩
  | some m =>
    cases hn : b.asInt64? with
    | none => exact ⟨_, .nearest (.inr hn) hu hv⟩
    | some n => exact ⟨_, .words hm hn⟩

/-- Two values that are comparable with a third one are comparable. -/
theorem comparable (h : Compared a b o) (h' : Compared a c o') : ∃ o'', Compared b c o'' := by
  cases hnumber : a.isNumber with
  | true => exact of_isNumber (h.isNumber.symm.trans hnumber) (h'.isNumber.symm.trans hnumber)
  | false =>
    have hword : a.asInt64? = none := by
      cases hm : a.asInt64? with
      | none => rfl
      | some m => exact absurd (isNumber_of_asInt64? hm) (by simp [hnumber])
    have hnearest : a.nearest? = none :=
      Option.not_isSome_iff_eq_none.mp (by simp [nearest?_isSome, hnumber])
    cases h with
    | words ha _ => cases hword.symm.trans ha
    | nearest _ ha _ => cases hnearest.symm.trans ha
    | null =>
      cases h' with
      | null => exact ⟨_, .null⟩
      | words ha _ => cases ha
      | nearest _ ha _ => cases ha
    | bool x y =>
      cases h' with
      | bool _ z => exact ⟨_, .bool y z⟩
      | words ha _ => cases ha
      | nearest _ ha _ => cases ha
    | string s t =>
      cases h' with
      | string _ r => exact ⟨_, .string t r⟩
      | words ha _ => cases ha
      | nearest _ ha _ => cases ha

/-- A number that is not after another one has no greater nearest number. -/
theorem nearest_le (h : Compared a b o) (ho : o ≠ .gt) (ha : a.nearest? = some u)
    (hb : b.nearest? = some v) : u ≤ v := by
  cases h with
  | null => cases ha
  | bool x y => cases ha
  | string s t => cases ha
  | words hm hn =>
    obtain rfl := Option.some.inj ((nearest?_of_asInt64? hm).symm.trans ha)
    obtain rfl := Option.some.inj ((nearest?_of_asInt64? hn).symm.trans hb)
    have hle := Std.isLE_compare.mp (Ordering.isLE_iff_ne_gt.mpr ho)
    exact Binary64.nearest_mono (Int64.le_iff_toInt_le.mp hle)
  | nearest _ hu hv =>
    obtain rfl := Option.some.inj (hu.symm.trans ha)
    obtain rfl := Option.some.inj (hv.symm.trans hb)
    exact Std.isLE_compare.mp (Ordering.isLE_iff_ne_gt.mpr ho)

end Compared

/-- Exchanging the values reverses the order. -/
theorem compare?_swap (a b : Json) : b.compare? a = (a.compare? b).map Ordering.swap := by
  refine Option.ext fun o => ?_
  rw [Option.map_eq_some_iff, compare?_eq_some_iff]
  constructor
  · intro h
    exact ⟨o.swap, compare?_eq_some_iff.mpr h.swap, Ordering.swap_swap⟩
  · rintro ⟨o', h, rfl⟩
    exact (compare?_eq_some_iff.mp h).swap

/-! ### Blurs -/

/-- A value is taken for equal to two values of which the first comes before the second: it is of
another kind, or it is a number, but no signed word, to which both are rounded. -/
inductive Blurs (b : Json) : Json → Json → Prop
  | otherKind {a c : Json} (hlt : a.compare? c = some .lt) (hb : a.compare? b = none) : Blurs b a c
  | rounded {a c : Json} {m n : Int64} {u : Int} (ha : a.asInt64? = some m)
      (hc : c.asInt64? = some n) (hlt : m < n) (hb : b.asInt64? = none) (hu : b.nearest? = some u)
      (hm : Binary64.nearest m.toInt = u) (hn : Binary64.nearest n.toInt = u) : Blurs b a c

/-- **A value that blurs two values counts as equal to both.** -/
theorem Blurs.order (h : Blurs b a c) :
    a.compare? c = some .lt ∧ orderOfValues (some a) (some b) = .eq ∧
      orderOfValues (some c) (some b) = .eq := by
  cases h with
  | otherKind hlt hb =>
    have hc : c.compare? b = none := by
      cases hcb : c.compare? b with
      | none => rfl
      | some o =>
        obtain ⟨o', h⟩ := (compare?_eq_some_iff.mp hlt).swap.comparable (compare?_eq_some_iff.mp hcb)
        cases hb.symm.trans (compare?_eq_some_iff.mpr h)
    exact ⟨hlt, by rw [orderOfValues, hb]; rfl, by rw [orderOfValues, hc]; rfl⟩
  | @rounded m n u ha hc hlt hb hu hm hn =>
    have hself : Ord.compare u u = .eq := Std.compare_self
    have hround : ∀ {j : Json} {k : Int64}, j.asInt64? = some k → Binary64.nearest k.toInt = u →
        orderOfValues (some j) (some b) = .eq := by
      intro j k hj hk
      have h := Compared.nearest (.inr hb) (hk ▸ nearest?_of_asInt64? hj) hu
      rw [orderOfValues, compare?_eq_some_iff.mpr h, hself]
      rfl
    refine ⟨?_, hround ha hm, hround hc hn⟩
    rw [compare?_eq_some_iff.mpr (.words ha hc), Std.compare_eq_lt.mpr hlt]

/-- Three comparable values that are out of order are two words and a number between them to which both
are rounded. -/
theorem blurs_of_compared {p q : Ordering} (hp : p ≠ .gt) (hq : q ≠ .gt) (hab : Compared a b p)
    (hbc : Compared b c q) (hac : Compared a c .gt) : Blurs b c a := by
  generalize hgt : Ordering.gt = o at hac
  cases hac with
  | null => cases hgt
  | bool x z =>
    cases hab with
    | bool _ y =>
      cases hbc with
      | bool _ _ => exact absurd hgt.symm (compare_trans hp hq)
      | words hb _ => cases hb
      | nearest _ hb _ => cases hb
    | words ha _ => cases ha
    | nearest _ ha _ => cases ha
  | string s r =>
    cases hab with
    | string _ t =>
      cases hbc with
      | string _ _ => exact absurd hgt.symm (compare_trans hp hq)
      | words hb _ => cases hb
      | nearest _ hb _ => cases hb
    | words ha _ => cases ha
    | nearest _ ha _ => cases ha
  | @words _ _ m n ha hc =>
    have hlt : n < m := Std.compare_eq_gt.mp hgt.symm
    cases hb : b.asInt64? with
    | some k =>
      rw [hab.unique (.words ha hb)] at hp
      rw [hbc.unique (.words hb hc)] at hq
      exact absurd hgt.symm (compare_trans hp hq)
    | none =>
      have hnumber : b.isNumber = true := hab.isNumber.symm.trans (isNumber_of_asInt64? ha)
      obtain ⟨u, hu⟩ := Option.isSome_iff_exists.mp ((nearest?_isSome b).trans hnumber)
      have hmu := hab.nearest_le hp (nearest?_of_asInt64? ha) hu
      have hun := hbc.nearest_le hq hu (nearest?_of_asInt64? hc)
      have hnm := Binary64.nearest_mono (Int64.le_iff_toInt_le.mp (Int64.le_of_lt hlt))
      exact .rounded hc ha hlt hb hu (by omega) (by omega)
  | @nearest _ _ u w hno ha hc =>
    obtain ⟨v, hv⟩ : ∃ v, b.nearest? = some v := by
      have hnumber : a.isNumber = true := by rw [← nearest?_isSome, ha]; rfl
      exact Option.isSome_iff_exists.mp
        ((nearest?_isSome b).trans (hab.isNumber.symm.trans hnumber))
    have huv := hab.nearest_le hp ha hv
    have hvw := hbc.nearest_le hq hv hc
    have hwu : w < u := Std.compare_eq_gt.mp hgt.symm
    omega

/-- **Where the order of three values is not transitive, the one in the middle blurs the others.** -/
theorem blurs_of_order (hab : orderOfValues (some a) (some b) ≠ .gt)
    (hbc : orderOfValues (some b) (some c) ≠ .gt) (hac : orderOfValues (some a) (some c) = .gt) :
    Blurs b c a := by
  have hgt : Compared a c .gt := by
    cases h : a.compare? c with
    | none => rw [orderOfValues, h] at hac; cases hac
    | some o =>
      obtain rfl : o = .gt := by rw [orderOfValues, h] at hac; exact hac
      exact compare?_eq_some_iff.mp h
  have hlt : c.compare? a = some .lt := compare?_eq_some_iff.mpr hgt.swap
  cases hcb : c.compare? b with
  | none => exact .otherKind hlt hcb
  | some o =>
    obtain ⟨o', hba⟩ := (compare?_eq_some_iff.mp hcb).comparable hgt.swap
    obtain ⟨p, hp, hab'⟩ : ∃ p, p ≠ .gt ∧ Compared a b p := by
      refine ⟨o'.swap, ?_, hba.swap⟩
      rw [orderOfValues, compare?_eq_some_iff.mpr hba.swap] at hab
      exact hab
    obtain ⟨q, hq, hbc'⟩ : ∃ q, q ≠ .gt ∧ Compared b c q := by
      have h := (compare?_eq_some_iff.mp hcb).swap
      refine ⟨o.swap, ?_, h⟩
      rw [orderOfValues, compare?_eq_some_iff.mpr h] at hbc
      exact hbc
    exact blurs_of_compared hp hq hab' hbc' hgt

end Json

end DocumentMapper
