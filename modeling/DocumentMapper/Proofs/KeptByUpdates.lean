import DocumentMapper.Proofs.Runs
import DocumentMapper.Proofs.Segments
import DocumentMapper.Proofs.StoredEdit
import DocumentMapper.Update.Application

/-!
# What updates keep

Whatever its operators are, an update changes a document only by writing values at paths and by
removing what stands at paths. The values come from its operands, from the document, or from
arithmetic. So a property that such writing and removing keeps is kept by the whole update, also by
one that fails halfway: `Kept` says what has to be known about the property, and the operators are
gone through only once.

## Main results

* `Kept.applyOperators`: the operators of an update keep such a property;
* `kept_wellFormed`: well-formedness is one, whatever the paths;
* `kept_entry`: so is what stands under a key, if no path begins with it.
-/

namespace DocumentMapper

open Text

/-! ### Removed values -/

/-- What is removed along some segments is what they lead to. -/
theorem Json.getPath?_of_removeSegments? {segments : List String} {j v rest : Json}
    (h : Json.removeSegments? segments j = some (v, rest)) : j.getPath? segments = some v := by
  induction segments generalizing j rest with
  | nil => cases h
  | cons segment segments ih =>
    cases segments with
    | nil =>
      cases j with
      | object es =>
        obtain ⟨w, hw, heq⟩ := Option.map_eq_some_iff.mp h
        obtain ⟨rfl, -⟩ := Prod.mk.inj heq
        simp [Json.getPath?, Json.child?, hw]
      | array items =>
        obtain ⟨i, hi, h⟩ := Option.bind_eq_some_iff.mp h
        obtain ⟨w, hw, heq⟩ := Option.bind_eq_some_iff.mp h
        obtain ⟨rfl, -⟩ := Prod.mk.inj (Option.some.inj heq)
        simp [Json.getPath?, Json.child?, hi, hw]
      | null => cases h
      | bool b => cases h
      | whole n => cases h
      | float x => cases h
      | string s => cases h
    | cons next more =>
      obtain ⟨part, hpart, h⟩ := Option.bind_eq_some_iff.mp h
      obtain ⟨⟨w, part'⟩, hw, heq⟩ := Option.bind_eq_some_iff.mp h
      obtain ⟨rfl, -⟩ := Prod.mk.inj (Option.some.inj heq)
      simp only [Json.getPath?, hpart, Option.bind_some]
      exact ih hw

/-- What is removed at a dotted path is what stands there. -/
theorem Object.getPath?_of_removePath? {doc rest : Object} {path : String} {v : Json}
    (h : doc.removePath? path = some (v, rest)) :
    doc.getPath? path = some v ∧ doc.removePath path = rest := by
  refine ⟨?_, by simp [Object.removePath, h]⟩
  unfold Object.removePath? at h
  split at h
  · rename_i removed es hremoved
    obtain ⟨rfl, rfl⟩ := Prod.mk.inj (Option.some.inj h)
    exact Json.getPath?_of_removeSegments? hremoved
  · cases h

/-! ### Inserted values -/

/-- What is in an array after insertions was inserted or was there. -/
theorem mem_insertEach {unique : Bool} {values items : List Json} {place : Nat} {item : Json}
    (h : item ∈ insertEach unique values place items) : item ∈ values ∨ item ∈ items := by
  induction values generalizing place items with
  | nil => exact .inr h
  | cons v values ih =>
    simp only [insertEach] at h
    split at h
    · exact (ih h).imp_left (List.mem_cons_of_mem v)
    · rcases ih h with hmem | hmem
      · exact .inl (List.mem_cons_of_mem v hmem)
      · rcases List.eq_or_mem_of_mem_insertIdx hmem with rfl | hmem
        · exact .inl List.mem_cons_self
        · exact .inr hmem

/-- Items that are kept were there. -/
theorem mem_of_itemsNotMeeting {condition : Json} {items kept : List Json}
    (h : itemsNotMeeting condition items = .ok kept) {item : Json} (hitem : item ∈ kept) :
    item ∈ items := by
  induction items generalizing kept with
  | nil =>
    cases h
    exact hitem
  | cons first rest ih =>
    simp only [itemsNotMeeting] at h
    obtain ⟨met, -, h⟩ := bind_eq_ok.mp h
    obtain ⟨others, hothers, h⟩ := bind_eq_ok.mp h
    cases h
    split at hitem
    · exact List.mem_cons_of_mem _ (ih hothers hitem)
    · rcases List.mem_cons.mp hitem with rfl | hitem
      · exact List.mem_cons_self
      · exact List.mem_cons_of_mem _ (ih hothers hitem)

/-! ### Properties that changes keep -/

/-- A property `P` of documents that is kept when a value with the property `V` is written at a path
with the property `A`, or when such a path is removed. The parts of a document and of a value have
the property of values too. -/
structure Kept (P : Object → Prop) (V : Json → Prop) (A : String → Prop) : Prop where
  write : ∀ {doc doc' : Object} {path : String} {v : Json}, P doc → A path → V v →
    doc.setPath path v = .ok doc' → P doc'
  remove : ∀ {doc : Object} {path : String}, P doc → A path → P (doc.removePath path)
  part : ∀ {doc : Object} {path : String} {v : Json}, P doc → doc.getPath? path = some v → V v
  array : ∀ {items : List Json}, V (.array items) ↔ ∀ item ∈ items, V item
  entry : ∀ {es : Object}, V (.object es) → ∀ e ∈ es, V e.2
  word : ∀ n, V (.ofInt64 n)
  float : ∀ x, V (.float x)

namespace Kept

variable {P : Object → Prop} {V : Json → Prop} {A : String → Prop} {doc doc' : Object}
  {path op : String} {operand : Json}

/-- A change that is made or not keeps the property if making it does. -/
theorem ofExcept {change : Except StoreError Object} (hdoc : P doc)
    (h : ∀ doc', change = .ok doc' → P doc') : P (Applied.ofExcept doc change).doc := by
  cases change with
  | ok doc' => exact h doc' rfl
  | error cause => exact hdoc

/-- Opening an array keeps the property, and its items have the property of values. -/
theorem arrayAt (h : Kept P V A) (hdoc : P doc) (hpath : A path) {items : List Json}
    (harray : doc.arrayAt path op = .ok (doc', items)) : P doc' ∧ ∀ item ∈ items, V item := by
  unfold Object.arrayAt at harray
  split at harray
  · obtain ⟨opened, hset, heq⟩ := bind_eq_ok.mp harray
    obtain ⟨rfl, rfl⟩ := Prod.mk.inj (Except.ok.inj heq)
    have hnone : ∀ item ∈ ([] : List Json), V item := fun _ hitem => absurd hitem List.not_mem_nil
    exact ⟨h.write hdoc hpath (h.array.mpr hnone) hset, hnone⟩
  · rename_i found hfound
    obtain ⟨rfl, rfl⟩ := Prod.mk.inj (Except.ok.inj harray)
    exact ⟨hdoc, h.array.mp (h.part hdoc hfound)⟩
  · cases harray
  · cases harray

/-- So does changing its items, if the new items have the property of values. -/
theorem changeArray (h : Kept P V A) (hdoc : P doc) (hpath : A path) {f : List Json → List Json}
    (hf : ∀ items, (∀ item ∈ items, V item) → ∀ item ∈ f items, V item)
    (hchange : doc.changeArray path op f = .ok doc') : P doc' := by
  obtain ⟨⟨opened, items⟩, harray, hwrite⟩ := bind_eq_ok.mp hchange
  obtain ⟨hopened, hitems⟩ := h.arrayAt hdoc hpath harray
  exact h.write hopened hpath (h.array.mpr (hf items hitems)) hwrite

/-- Pushed values are parts of the operand. -/
theorem pushedValues (h : Kept P V A) (hoperand : V operand) {values : List Json}
    {place : Option Nat} (hpushed : pushedValues operand = .ok (values, place)) :
    ∀ v ∈ values, V v := by
  have hsingle : ∀ v ∈ [operand], V v := by simpa using hoperand
  unfold DocumentMapper.pushedValues at hpushed
  split at hpushed
  · rename_i modifiers
    split at hpushed
    · rename_i listed hlisted
      obtain ⟨rfl, -⟩ := Prod.mk.inj (Except.ok.inj hpushed)
      exact h.array.mp (h.entry hoperand _ (Entries.mem_of_get? hlisted))
    · cases hpushed
    · obtain ⟨rfl, -⟩ := Prod.mk.inj (Except.ok.inj hpushed)
      exact hsingle
  · obtain ⟨rfl, -⟩ := Prod.mk.inj (Except.ok.inj hpushed)
    exact hsingle

theorem push (h : Kept P V A) (hdoc : P doc) (hpath : A path) (hoperand : V operand)
    {unique : Bool} (hpush : doc.push path op unique operand = .ok doc') : P doc' := by
  obtain ⟨⟨values, place⟩, hvalues, hchange⟩ := bind_eq_ok.mp hpush
  refine h.changeArray hdoc hpath (fun items hitems item hitem => ?_) hchange
  exact (mem_insertEach hitem).elim (h.pushedValues hoperand hvalues item) (hitems item)

/-- The result of an operation on numbers is a number. -/
theorem combineNumbers (h : Kept P V A) {onWords : Int → Int → Int}
    {onDoubles : Number.Binary64 → Number.Binary64 → Option Number.Binary64} {current j : Json}
    (hcombine : DocumentMapper.combineNumbers op onWords onDoubles current operand = .ok j) :
    V j := by
  simp only [DocumentMapper.combineNumbers] at hcombine
  split at hcombine
  · rename_i r hr
    cases hcombine
    rcases Option.or_eq_some_iff.mp hr with hexact | ⟨-, hrounded⟩
    · split at hexact
      · obtain ⟨n, -, rfl⟩ := Option.map_eq_some_iff.mp hexact
        exact h.word n
      · cases hexact
    · split at hrounded
      · obtain ⟨x, -, rfl⟩ := Option.map_eq_some_iff.mp hrounded
        exact h.float x
      · cases hrounded
  · cases hcombine

theorem changeNumber (h : Kept P V A) (hdoc : P doc) (hpath : A path) {onWords : Int → Int → Int}
    {onDoubles : Number.Binary64 → Number.Binary64 → Option Number.Binary64}
    (hchange : doc.changeNumber path op onWords onDoubles operand = .ok doc') : P doc' := by
  obtain ⟨j, hcombine, hwrite⟩ := bind_eq_ok.mp hchange
  exact h.write hdoc hpath (h.combineNumbers hcombine) hwrite

theorem setIfOrdered (h : Kept P V A) (hdoc : P doc) (hpath : A path) (hoperand : V operand)
    {wanted : Ordering} (hset : doc.setIfOrdered path wanted operand = .ok doc') : P doc' := by
  unfold Object.setIfOrdered at hset
  split at hset
  · split at hset
    · exact h.write hdoc hpath hoperand hset
    · cases hset
      exact hdoc
  · exact h.write hdoc hpath hoperand hset

/-- Items go also when the condition on them cannot be evaluated. -/
theorem pull (h : Kept P V A) (hdoc : P doc) (hpath : A path) (condition : Json) :
    P (doc.pull path op condition).doc := by
  unfold Object.pull
  split
  · exact hdoc
  · rename_i found items harray
    obtain ⟨hfound, hitems⟩ := h.arrayAt hdoc hpath harray
    split
    · rename_i kept hkept
      refine ofExcept hfound fun doc' hwrite => h.write hfound hpath (h.array.mpr ?_) hwrite
      exact fun item hitem => hitems item (mem_of_itemsNotMeeting hkept hitem)
    · exact ofExcept hfound fun doc' hwrite =>
        h.write hfound hpath (h.array.mpr fun _ hitem => absurd hitem List.not_mem_nil) hwrite

theorem pullAll (h : Kept P V A) (hdoc : P doc) (hpath : A path)
    (hpull : doc.pullAll path op operand = .ok doc') : P doc' := by
  unfold Object.pullAll at hpull
  split at hpull
  · exact h.changeArray hdoc hpath
      (fun items hitems item hitem => hitems item (List.mem_filter.mp hitem).1) hpull
  · cases hpull

theorem pop (h : Kept P V A) (hdoc : P doc) (hpath : A path)
    (hpop : doc.changeArray path op (fun items =>
      if operand.asInt64? == some (-1) then items.drop 1 else items.dropLast) = .ok doc') :
    P doc' := by
  refine h.changeArray hdoc hpath (fun items hitems item hitem => hitems item ?_) hpop
  split at hitem
  · exact List.mem_of_mem_drop hitem
  · exact List.dropLast_subset items hitem

/-- The value that moves is a part of the document. -/
theorem rename (h : Kept P V A) (hdoc : P doc) (hpath : A path)
    (htarget : ∀ target, operand = .string target → A target) :
    P (doc.rename path operand).doc := by
  unfold Object.rename
  split
  · rename_i target
    split
    · rename_i v rest hremove
      obtain ⟨hfound, rfl⟩ := Object.getPath?_of_removePath? hremove
      have hrest := h.remove hdoc hpath
      exact ofExcept hrest fun doc' hwrite =>
        h.write hrest (htarget target rfl) (h.part hdoc hfound) hwrite
    · exact hdoc
  · exact hdoc

/-! ### Whole updates -/

/-- What one entry of an update needs to have: paths with the property `A`, unless the operator does
not take effect, and an operand with the property of values. -/
def Allows (A : String → Prop) (inserting : Bool) (op path : String) (operand : Json) : Prop :=
  (op ≠ "$setOnInsert" ∨ inserting = true) →
    A path ∧ (op = "$rename" → ∀ target, operand = .string target → A target)

/-- **Every operator keeps such a property.** -/
theorem applyOperator (h : Kept P V A) (hdoc : P doc) (hoperand : V operand) {inserting : Bool}
    (hpath : Allows A inserting op path operand) :
    P (doc.applyOperator op path operand inserting).doc := by
  unfold Object.applyOperator
  split
  · obtain ⟨hpath, -⟩ := hpath (.inl (by decide))
    exact ofExcept hdoc fun _ hset => h.write hdoc hpath hoperand hset
  · split
    · rename_i hinserting
      obtain ⟨hpath, -⟩ := hpath (.inr hinserting)
      exact ofExcept hdoc fun _ hset => h.write hdoc hpath hoperand hset
    · exact hdoc
  · exact h.remove hdoc (hpath (.inl (by decide))).1
  · exact ofExcept hdoc fun _ => h.changeNumber hdoc (hpath (.inl (by decide))).1
  · exact ofExcept hdoc fun _ => h.changeNumber hdoc (hpath (.inl (by decide))).1
  · exact ofExcept hdoc fun _ => h.setIfOrdered hdoc (hpath (.inl (by decide))).1 hoperand
  · exact ofExcept hdoc fun _ => h.setIfOrdered hdoc (hpath (.inl (by decide))).1 hoperand
  · exact ofExcept hdoc fun _ => h.push hdoc (hpath (.inl (by decide))).1 hoperand
  · exact ofExcept hdoc fun _ => h.push hdoc (hpath (.inl (by decide))).1 hoperand
  · exact h.pull hdoc (hpath (.inl (by decide))).1 operand
  · exact ofExcept hdoc fun _ => h.pullAll hdoc (hpath (.inl (by decide))).1
  · exact ofExcept hdoc fun _ => h.pop hdoc (hpath (.inl (by decide))).1
  · obtain ⟨hpath, htarget⟩ := hpath (.inl (by decide))
    exact h.rename hdoc hpath (htarget rfl)
  · exact hdoc

/-- Going on keeps the property if every change does. -/
theorem andThen {a : Applied} {next : Object → Applied} (ha : P a.doc)
    (hnext : ∀ doc, P doc → P (next doc).doc) : P (a.andThen next).doc := by
  unfold Applied.andThen
  split
  · exact ha
  · exact hnext _ ha

/-- The entries of one operator keep the property. -/
theorem applyEntries (h : Kept P V A) {before filter : Object} {inserting : Bool}
    {entries : Object} (hentries : ∀ e ∈ entries, V e.2 ∧ ∀ path,
      positionalPath before filter e.1 = .ok path → Allows A inserting op path e.2)
    (hdoc : P doc) : P (Object.applyEntries before filter op inserting entries doc).doc := by
  induction entries generalizing doc with
  | nil => exact hdoc
  | cons e rest ih =>
    obtain ⟨rawPath, operand⟩ := e
    simp only [Object.applyEntries]
    obtain ⟨hoperand, hallows⟩ := hentries _ List.mem_cons_self
    split
    · exact hdoc
    · rename_i path hpath
      refine andThen (h.applyOperator hdoc hoperand (hallows path hpath)) fun doc hdoc => ?_
      exact ih (fun e he => hentries e (List.mem_cons_of_mem _ he)) hdoc

/-- **The operators of an update keep the property**, also where one of them fails. -/
theorem applyOperators (h : Kept P V A) {before filter update : Object} {inserting : Bool}
    (hupdate : ∀ e ∈ update, V e.2)
    (hallows : ∀ op entries, (op, Json.object entries) ∈ update → ∀ e ∈ entries, ∀ path,
      positionalPath before filter e.1 = .ok path → Allows A inserting op path e.2)
    (hdoc : P doc) : P (Object.applyOperators before filter inserting update doc).doc := by
  induction update generalizing doc with
  | nil => exact hdoc
  | cons e rest ih =>
    obtain ⟨op, operands⟩ := e
    cases operands with
    | object entries =>
      refine andThen (h.applyEntries (fun e he => ⟨?_, ?_⟩) hdoc) fun doc hdoc => ?_
      · exact h.entry (hupdate _ List.mem_cons_self) e he
      · exact hallows op entries List.mem_cons_self e he
      · exact ih (fun e he => hupdate e (List.mem_cons_of_mem _ he))
          (fun op entries he => hallows op entries (List.mem_cons_of_mem _ he)) hdoc
    | null => exact hdoc
    | bool b => exact hdoc
    | whole n => exact hdoc
    | float x => exact hdoc
    | string t => exact hdoc
    | array items => exact hdoc

end Kept

/-! ### Properties that are kept -/

/-- Well-formedness is kept, whatever the paths. -/
theorem kept_wellFormed : Kept Object.WellFormed Json.WellFormed fun _ => True where
  write hdoc _ hv hset := Object.wellFormed_setPath hdoc hv hset
  remove hdoc _ := Object.wellFormed_removePath hdoc _
  part hdoc hget := Json.wellFormed_getPath? hdoc hget
  array := Json.wellFormed_array
  entry hes := (Json.wellFormed_object.mp hes).2
  word _ := trivial
  float _ := trivial

/-- What stands under a key is kept, if no path begins with the key. -/
theorem kept_entry (key : String) (found : Option Json) :
    Kept (fun doc => doc.get? key = found) (fun _ => True)
      fun path => (dottedSegments path).head? ≠ some key where
  write := by
    intro doc doc' path v hdoc hpath _ hset
    obtain ⟨first, rest, hsegments⟩ := List.exists_cons_of_ne_nil (dottedSegments_ne_nil path)
    rw [hsegments] at hpath
    rw [Object.get?_setPath_of_ne hsegments (by simpa using hpath) hset, hdoc]
  remove := by
    intro doc path hdoc hpath
    obtain ⟨first, rest, hsegments⟩ := List.exists_cons_of_ne_nil (dottedSegments_ne_nil path)
    rw [hsegments] at hpath
    rw [Object.get?_removePath_of_ne hsegments (by simpa using hpath), hdoc]
  part _ _ := trivial
  array := by simp
  entry _ _ _ := trivial
  word _ := trivial
  float _ := trivial

end DocumentMapper
