import Mathlib.Data.Set.Defs
import DocumentMapper.Proofs.ComparedValues
import DocumentMapper.Proofs.Loading

/-!
# The order of sorted documents

Documents are sorted by the values at some paths, in this or the opposite direction; the first path
that tells two documents apart is decisive. Exchanging two documents always reverses their order.

The order is not always transitive, since values that cannot be compared count as equal and numbers
are rounded. Documents whose values blur no others at the paths have a preorder, for all lists of these
paths, and no other documents have. Among them a search returns what it finds in order.

## Main results

* `sortOrder_swap`: exchanging two documents reverses their order;
* `transCmp_sortOrder`: without blurs the order by several paths is a preorder;
* `sortOrder_preorder_iff`: it is one for all lists of paths exactly if there are no blurs;
* `Store.find_in_order`: without blurs a search returns documents in order.
-/

namespace DocumentMapper

/-! ### Values that may be missing -/

/-- Exchanging the values reverses the order. -/
theorem orderOfValues_swap (x y : Option Json) :
    orderOfValues y x = (orderOfValues x y).swap := by
  cases x with
  | none => cases y <;> rfl
  | some a =>
    cases y with
    | none => rfl
    | some b =>
      simp only [orderOfValues, Json.compare?_swap a b]
      cases a.compare? b <;> rfl

/-- A missing value comes first, so transitivity fails only among three values that are there. -/
theorem exists_blurs_of_order {x y z : Option Json} (hxy : orderOfValues x y ≠ .gt)
    (hyz : orderOfValues y z ≠ .gt) (hxz : orderOfValues x z = .gt) :
    ∃ a b c, x = some a ∧ y = some b ∧ z = some c ∧ b.Blurs c a := by
  cases x with
  | none => cases z <;> cases hxz
  | some a =>
    cases y with
    | none => exact absurd rfl hxy
    | some b =>
      cases z with
      | none => exact absurd rfl hyz
      | some c => exact ⟨a, b, c, rfl, rfl, rfl, Json.blurs_of_order hxy hyz hxz⟩

/-! ### Documents -/

/-- The order of two documents by one path. -/
def keyOrder (key : String × Bool) (p q : Object) : Ordering :=
  let order := orderOfValues (p.getPath? key.1) (q.getPath? key.1)
  if key.2 then order else order.swap

/-- The first path that tells two documents apart is decisive. -/
theorem sortOrder_cons (key : String × Bool) (keys : List (String × Bool)) (p q : Object) :
    sortOrder (key :: keys) p q = (keyOrder key p q).then (sortOrder keys p q) := by
  obtain ⟨path, ascending⟩ := key
  simp only [sortOrder, keyOrder]
  generalize (if ascending = true then _ else _ : Ordering) = order
  cases order <;> rfl

theorem keyOrder_swap (key : String × Bool) (p q : Object) :
    keyOrder key p q = (keyOrder key q p).swap := by
  unfold keyOrder
  rw [orderOfValues_swap (q.getPath? key.1)]
  split <;> simp

/-- **Exchanging the documents reverses the order.** -/
theorem sortOrder_swap (keys : List (String × Bool)) (p q : Object) :
    sortOrder keys p q = (sortOrder keys q p).swap := by
  induction keys with
  | nil => rfl
  | cons key keys ih =>
    rw [sortOrder_cons, sortOrder_cons, Ordering.swap_then, ← ih, ← keyOrder_swap]

/-- Among some documents there is one whose value at a path blurs the values of two others. -/
def BlursAt (docs : Set Object) (path : String) : Prop :=
  ∃ p ∈ docs, ∃ q ∈ docs, ∃ r ∈ docs, ∃ a b c, p.getPath? path = some a ∧
    q.getPath? path = some b ∧ r.getPath? path = some c ∧ b.Blurs a c

section Documents

variable {docs : Set Object}

/-- Without a blur the order by one path is a preorder. -/
theorem transCmp_keyOrder {key : String × Bool} (h : ¬ BlursAt docs key.1) :
    Std.TransCmp fun p q : {p // p ∈ docs} => keyOrder key p q := by
  obtain ⟨path, ascending⟩ := key
  have hascending : Std.TransCmp fun p q : {p // p ∈ docs} => keyOrder (path, true) p q := by
    refine { eq_swap := keyOrder_swap (path, true) _ _, isLE_trans := ?_ }
    intro p q r hpq hqr
    rw [Ordering.isLE_iff_ne_gt] at hpq hqr ⊢
    intro hpr
    obtain ⟨a, b, c, ha, hb, hc, hblurs⟩ := exists_blurs_of_order hpq hqr hpr
    exact h ⟨r, r.2, q, q.2, p, p.2, c, b, a, hc, hb, ha, hblurs⟩
  cases ascending with
  | true => exact hascending
  | false =>
    have hreversed : (fun p q : {p // p ∈ docs} => keyOrder (path, false) p q) =
        fun p q => keyOrder (path, true) q.1 p.1 := by
      funext p q
      exact (keyOrder_swap (path, true) q.1 p.1).symm
    rw [hreversed]
    exact Std.TransCmp.opposite

/-- **Without blurs the order by several paths is a preorder.** -/
theorem transCmp_sortOrder {keys : List (String × Bool)}
    (h : ∀ key ∈ keys, ¬ BlursAt docs key.1) :
    Std.TransCmp fun p q : {p // p ∈ docs} => sortOrder keys p q := by
  induction keys with
  | nil => exact { eq_swap := rfl, isLE_trans := fun _ _ => rfl }
  | cons key keys ih =>
    obtain ⟨hkey, hkeys⟩ := List.forall_mem_cons.mp h
    have hfirst := transCmp_keyOrder hkey
    have hrest := ih hkeys
    have hlex : (fun p q : {p // p ∈ docs} => sortOrder (key :: keys) p q) =
        compareLex (fun p q => keyOrder key p.1 q.1) (fun p q => sortOrder keys p.1 q.1) := by
      funext p q
      exact sortOrder_cons key keys p q
    rw [hlex]
    exact inferInstance

/-- The order of some documents by several paths is a preorder: what is not after something that is
not after a third document is not after it either, and documents that are equal to a common one are
equal. -/
structure PreorderedBy (keys : List (String × Bool)) (docs : Set Object) : Prop where
  trans : ∀ p ∈ docs, ∀ q ∈ docs, ∀ r ∈ docs, sortOrder keys p q ≠ .gt →
    sortOrder keys q r ≠ .gt → sortOrder keys p r ≠ .gt
  equal : ∀ p ∈ docs, ∀ q ∈ docs, ∀ r ∈ docs, sortOrder keys p q = .eq →
    sortOrder keys r q = .eq → sortOrder keys p r = .eq

theorem preorderedBy_of_not_blursAt {keys : List (String × Bool)}
    (h : ∀ key ∈ keys, ¬ BlursAt docs key.1) : PreorderedBy keys docs := by
  have htrans := transCmp_sortOrder h
  constructor
  · intro p hp q hq r hr hpq hqr
    have hle := @htrans.isLE_trans ⟨p, hp⟩ ⟨q, hq⟩ ⟨r, hr⟩
    exact Ordering.isLE_iff_ne_gt.mp
      (hle (Ordering.isLE_iff_ne_gt.mpr hpq) (Ordering.isLE_iff_ne_gt.mpr hqr))
  · intro p hp q hq r hr hpq hrq
    have hequal := @Std.TransCmp.eq_trans _ _ htrans ⟨p, hp⟩ ⟨q, hq⟩ ⟨r, hr⟩
    refine hequal hpq ?_
    rw [sortOrder_swap, hrq]
    rfl

/-- A blur makes the order by its path none. -/
theorem not_preorderedBy_of_blursAt {path : String} (h : BlursAt docs path) :
    ¬ PreorderedBy [(path, true)] docs := by
  obtain ⟨p, hp, q, hq, r, hr, a, b, c, ha, hb, hc, hblurs⟩ := h
  obtain ⟨hlt, hab, hcb⟩ := hblurs.order
  intro hpreordered
  have hsingle : ∀ s t : Object, sortOrder [(path, true)] s t =
      orderOfValues (s.getPath? path) (t.getPath? path) := by
    intro s t
    rw [sortOrder_cons]
    exact Ordering.then_eq
  have hpr := hpreordered.equal p hp q hq r hr
    (by rw [hsingle, ha, hb, hab]) (by rw [hsingle, hc, hb, hcb])
  rw [hsingle, ha, hc, orderOfValues, hlt] at hpr
  cases hpr

/-- **Exchanging two documents always reverses their order. The order of some documents is a preorder
for all lists of some paths, in any directions, exactly if none of them has a value at one of the paths
that blurs the values of two others.** -/
theorem sortOrder_preorder_iff (docs : Set Object) (paths : Set String) :
    (∀ keys p q, sortOrder keys q p = (sortOrder keys p q).swap) ∧
    ((∀ keys : List (String × Bool), (∀ key ∈ keys, key.1 ∈ paths) → PreorderedBy keys docs) ↔
      ∀ path ∈ paths, ¬ BlursAt docs path) := by
  refine ⟨fun keys p q => sortOrder_swap keys q p, fun h path hpath hblurs => ?_,
    fun h keys hkeys => ?_⟩
  · refine not_preorderedBy_of_blursAt hblurs (h _ fun key hkey => ?_)
    rwa [List.mem_singleton.mp hkey]
  · exact preorderedBy_of_not_blursAt fun key hkey => h key.1 (hkeys key hkey)

end Documents

/-- A document with one value. -/
def rowOf (v : Json) : Object := [("n", v)]

/-- A binary64 number counts as equal to a word that is rounded to it and to the word that it is, and a
text counts as equal to all numbers. -/
theorem rows_not_preordered :
    (sortOrder [("n", true)] (rowOf (.ofInt64 9007199254740993))
        (rowOf (.float (.power false 1075 (by decide)))) = .eq ∧
      sortOrder [("n", true)] (rowOf (.float (.power false 1075 (by decide))))
        (rowOf (.ofInt64 9007199254740992)) = .eq ∧
      sortOrder [("n", true)] (rowOf (.ofInt64 9007199254740993))
        (rowOf (.ofInt64 9007199254740992)) = .gt) ∧
    (sortOrder [("n", true)] (rowOf (.ofInt64 1)) (rowOf (.string "x")) = .eq ∧
      sortOrder [("n", true)] (rowOf (.string "x")) (rowOf (.ofInt64 0)) = .eq ∧
      sortOrder [("n", true)] (rowOf (.ofInt64 1)) (rowOf (.ofInt64 0)) = .gt) ∧
    ¬ PreorderedBy [("n", true)] Set.univ := by
  have hrounded : sortOrder [("n", true)] (rowOf (.ofInt64 9007199254740993))
      (rowOf (.float (.power false 1075 (by decide)))) = .eq := by decide +kernel
  refine ⟨⟨hrounded, by decide +kernel, by decide +kernel⟩, by decide +kernel, fun h => ?_⟩
  have hequal := h.equal (rowOf (.ofInt64 1)) trivial (rowOf (.string "x")) trivial
    (rowOf (.ofInt64 0)) trivial (by decide +kernel) (by decide +kernel)
  exact absurd hequal (by decide +kernel)

/-! ### Sorted documents -/

section Sorting

variable {α : Type} {P : α → Prop} {cmp : α → α → Ordering}
  (hswap : ∀ x y, cmp x y = (cmp y x).swap)
  (htrans : ∀ x y z, P x → P y → P z → cmp x y ≠ .gt → cmp y z ≠ .gt → cmp x z ≠ .gt)

include hswap htrans

/-- An item that is put into a list in descending order keeps it in order. -/
theorem pairwise_insertDescending {x : α} {ys : List α} (hx : P x) (hys : ∀ y ∈ ys, P y)
    (h : ys.Pairwise fun y z => cmp z y ≠ .gt) :
    (insertDescending (fun x y => cmp x y == .lt) x ys).Pairwise fun y z => cmp z y ≠ .gt := by
  induction ys with
  | nil => exact List.pairwise_singleton _ _
  | cons y ys ih =>
    obtain ⟨hy, hrest⟩ := List.forall_mem_cons.mp hys
    obtain ⟨hafter, hpairs⟩ := List.pairwise_cons.mp h
    rw [insertDescending]
    split
    · rename_i hbefore
      have hlt : cmp x y = .lt := beq_iff_eq.mp hbefore
      refine List.pairwise_cons.mpr ⟨fun z hz => ?_, ih hrest hpairs⟩
      rcases List.mem_cons.mp ((insertDescending_perm _ x ys).mem_iff.mp hz) with rfl | hz
      · simp [hlt]
      · exact hafter z hz
    · rename_i hnot
      have hyx : cmp y x ≠ .gt := by
        intro hgt
        refine hnot (beq_iff_eq.mpr ?_)
        rw [hswap, hgt]
        rfl
      refine List.pairwise_cons.mpr ⟨fun z hz => ?_, h⟩
      rcases List.mem_cons.mp hz with rfl | hz
      · exact hyx
      · exact htrans z y x (hrest z hz) hy hx (hafter z hz) hyx

/-- **Sorting by a preorder leaves no two items out of order.** -/
theorem pairwise_stableSort {items : List α} (hitems : ∀ x ∈ items, P x) :
    (stableSort (fun x y => cmp x y == .lt) items).Pairwise fun x y => cmp x y ≠ .gt := by
  have hfold : ∀ sorted : List α, (∀ y ∈ sorted, P y) →
      (sorted.Pairwise fun y z => cmp z y ≠ .gt) →
      (items.foldl (fun sorted x => insertDescending (fun x y => cmp x y == .lt) x sorted)
        sorted).Pairwise fun y z => cmp z y ≠ .gt := by
    induction items with
    | nil => exact fun sorted _ h => h
    | cons x rest ih =>
      obtain ⟨hx, hrest⟩ := List.forall_mem_cons.mp hitems
      intro sorted hsorted h
      refine ih hrest _ (fun y hy => ?_) (pairwise_insertDescending hswap htrans hx hsorted h)
      rcases List.mem_cons.mp ((insertDescending_perm _ x sorted).mem_iff.mp hy) with rfl | hy
      · exact hx
      · exact hsorted y hy
  rw [stableSort, List.pairwise_reverse]
  exact hfold [] (fun _ h => absurd h List.not_mem_nil) List.Pairwise.nil

end Sorting

/-- **A search returns the documents in order**, if no value at one of the paths that it sorts by blurs
two others in the collection. -/
theorem Store.find_in_order {s : Store} {collection : String} {filter : Object}
    {options : FindOptions} {found : List Object}
    (h : s.find collection filter options = .ok found) (hwhole : options.projection = none)
    (hblurs : ∀ key ∈ options.sort, ¬ BlursAt {doc | doc ∈ s.documents collection} key.1) :
    found.Pairwise fun p q => sortOrder options.sort p q ≠ .gt := by
  obtain ⟨all, hmeeting, h⟩ := bind_eq_ok.mp h
  have hpreordered := preorderedBy_of_not_blursAt hblurs
  have hsorted : (if options.sort.isEmpty then all
      else stableSort (fun p q => sortOrder options.sort p q == .lt) all).Pairwise
      fun p q => sortOrder options.sort p q ≠ .gt := by
    split
    · rename_i hempty
      rw [List.isEmpty_iff.mp hempty]
      exact List.pairwise_of_forall fun _ _ => nofun
    · exact pairwise_stableSort (sortOrder_swap options.sort)
        (fun p q r hp hq hr => hpreordered.trans p hp q hq r hr)
        fun doc hdoc => (mem_of_meeting hmeeting hdoc).1
  simp only [hwhole] at h
  obtain rfl := Except.ok.inj h
  have hrest := hsorted.sublist (List.drop_sublist options.skip _)
  split
  · exact hrest.sublist (List.take_sublist _ _)
  · exact hrest

end DocumentMapper
