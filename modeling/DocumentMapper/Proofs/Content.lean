import Mathlib.Data.List.Perm.Subperm
import DocumentMapper.Json.Basic
import DocumentMapper.Proofs.EntriesLaws

/-!
# What stored values mean

Two stored objects are the same when every key has the same value in both, whatever the order of
the entries. `Json.content` forgets the order: an object becomes the function that reads its keys.
A binary64 number becomes its exact value, so that the two zeros are the same.

A stored value is well formed when no object inside it has a key twice, which is what the maps of
a store guarantee.

## Main results

* `Entries.get?_content`: the content of an object reads its keys;
* `Json.equal_iff_content`: well-formed values are equal exactly when they have the same content.
-/

namespace DocumentMapper

open Number

/-- A stored value without the order of its entries. -/
inductive Content where
  | null
  | bool (b : Bool)
  | whole (n : Whole)
  /-- A binary64 number by its exact value. -/
  | float (units : Int)
  | string (s : String)
  | array (items : List Content)
  | object (entry : String → Option Content)

mutual

/-- The content of a stored value. -/
def Json.content : Json → Content
  | .null => .null
  | .bool b => .bool b
  | .whole n => .whole n
  | .float x => .float x.units
  | .string s => .string s
  | .array items => .array (contentItems items)
  | .object es => .object (contentEntry es)
termination_by structural j => j

/-- The contents of some items. -/
def contentItems : List Json → List Content
  | [] => []
  | j :: js => j.content :: contentItems js
termination_by structural js => js

/-- The content that some entries have under a key. -/
def contentEntry : List (String × Json) → String → Option Content
  | [], _ => none
  | (k, j) :: rest, key => if k = key then some j.content else contentEntry rest key
termination_by structural es => es

end

mutual

/-- Whether no object inside the value has a key twice. -/
def Json.WellFormed : Json → Prop
  | .array items => itemsWellFormed items
  | .object es => (es.map Prod.fst).Nodup ∧ entriesWellFormed es
  | _ => True
termination_by structural j => j

/-- Whether all items are well formed. -/
def itemsWellFormed : List Json → Prop
  | [] => True
  | j :: js => j.WellFormed ∧ itemsWellFormed js
termination_by structural js => js

/-- Whether the values of all entries are well formed. -/
def entriesWellFormed : List (String × Json) → Prop
  | [] => True
  | (_, j) :: rest => j.WellFormed ∧ entriesWellFormed rest
termination_by structural es => es

end

/-- Whether a stored document is well formed. -/
def Object.WellFormed (doc : Object) : Prop :=
  (Json.object doc).WellFormed

/-- The content of a stored document. -/
def Object.content (doc : Object) : Content :=
  (Json.object doc).content

/-! ### Lists and maps -/

@[simp] theorem contentItems_eq_map (items : List Json) :
    contentItems items = items.map Json.content := by
  induction items with
  | nil => rfl
  | cons j js ih => simp [contentItems, ih]

/-- **The content of an object reads its keys.** -/
theorem Entries.get?_content (es : Object) (key : String) :
    contentEntry es key = (es.get? key).map Json.content := by
  induction es with
  | nil => rfl
  | cons e rest ih =>
    obtain ⟨k, j⟩ := e
    by_cases hk : k = key
    · simp [contentEntry, Entries.get?, hk]
    · simp [contentEntry, Entries.get?, hk, ih]

@[simp] theorem itemsWellFormed_iff (items : List Json) :
    itemsWellFormed items ↔ ∀ j ∈ items, j.WellFormed := by
  induction items with
  | nil => simp [itemsWellFormed]
  | cons j js ih => simp [itemsWellFormed, ih]

@[simp] theorem entriesWellFormed_iff (es : List (String × Json)) :
    entriesWellFormed es ↔ ∀ e ∈ es, e.2.WellFormed := by
  induction es with
  | nil => simp [entriesWellFormed]
  | cons e rest ih =>
    obtain ⟨k, j⟩ := e
    simp [entriesWellFormed, ih]

theorem Json.wellFormed_array {items : List Json} :
    (Json.array items).WellFormed ↔ ∀ j ∈ items, j.WellFormed := by
  simp [Json.WellFormed]

theorem Json.wellFormed_object {es : List (String × Json)} :
    (Json.object es).WellFormed ↔
      (es.map Prod.fst).Nodup ∧ ∀ e ∈ es, e.2.WellFormed := by
  simp [Json.WellFormed]

/-! ### Equality -/

/-- Every entry of `a` has its counterpart in `b` exactly when the two read alike on the keys of
`a`. -/
theorem entriesIn_iff_of_equal {a b : Object}
    (hequal : ∀ e ∈ a, ∀ w, b.get? e.1 = some w → (e.2.equal w = true ↔ e.2.content = w.content)) :
    Json.entriesIn a b = true ↔
      ∀ e ∈ a, (b.get? e.1).map Json.content = some e.2.content := by
  induction a with
  | nil => simp [Json.entriesIn]
  | cons e rest ih =>
    obtain ⟨k, v⟩ := e
    have hrest := ih fun e he => hequal e (List.mem_cons_of_mem _ he)
    have hfirst := hequal (k, v) List.mem_cons_self
    simp only [Json.entriesIn, Bool.and_eq_true, hrest, List.forall_mem_cons]
    refine and_congr ?_ Iff.rfl
    cases hw : Entries.get? b k with
    | none => simp
    | some w => simpa using (hfirst w hw).trans eq_comm

/-- Two objects with distinct keys read alike everywhere when they have as many entries and the
second reads like the first on its keys. -/
theorem contentEntry_eq_iff {a b : Object} (ha : (a.map Prod.fst).Nodup)
    (hb : (b.map Prod.fst).Nodup) :
    (a.length = b.length ∧ ∀ e ∈ a, (b.get? e.1).map Json.content = some e.2.content) ↔
      contentEntry a = contentEntry b := by
  constructor
  · rintro ⟨hlength, hall⟩
    -- The keys of `a` are among those of `b`, and there are as many of them.
    have hsub : a.map Prod.fst ⊆ b.map Prod.fst := by
      intro key hkey
      obtain ⟨e, he, rfl⟩ := List.mem_map.mp hkey
      have := hall e he
      rw [← Entries.get?_isSome_iff]
      cases hb' : b.get? e.1 with
      | none => simp [hb'] at this
      | some w => rfl
    have hperm : (a.map Prod.fst).Perm (b.map Prod.fst) :=
      (ha.subperm hsub).perm_of_length_le (by simp [hlength])
    funext key
    rw [Entries.get?_content, Entries.get?_content]
    cases hkey : a.get? key with
    | some v =>
      have := hall _ (Entries.mem_of_get? hkey)
      simpa using this.symm
    | none =>
      have hnot : key ∉ b.map Prod.fst := by
        rw [← hperm.mem_iff, ← Entries.get?_isSome_iff, hkey]
        simp
      rw [← Entries.get?_isSome_iff] at hnot
      cases hb' : b.get? key with
      | none => rfl
      | some w => simp [hb'] at hnot
  · intro hsame
    have hkeys : ∀ key, key ∈ a.map Prod.fst ↔ key ∈ b.map Prod.fst := by
      intro key
      have hkey := congrFun hsame key
      rw [Entries.get?_content, Entries.get?_content] at hkey
      rw [← Entries.get?_isSome_iff, ← Entries.get?_isSome_iff, ← Option.isSome_map, hkey,
        Option.isSome_map]
    have hperm : (a.map Prod.fst).Perm (b.map Prod.fst) :=
      (List.perm_ext_iff_of_nodup ha hb).mpr hkeys
    refine ⟨by simpa using hperm.length_eq, fun e he => ?_⟩
    have hkey := congrFun hsame e.1
    rw [Entries.get?_content, Entries.get?_content, Entries.get?_of_mem ha he] at hkey
    exact hkey.symm

mutual

/-- **Well-formed values are equal exactly when they have the same content.** -/
theorem Json.equal_iff_content : ∀ (a b : Json), a.WellFormed → b.WellFormed →
    (a.equal b = true ↔ a.content = b.content)
  | .null, b, _, _ => by cases b <;> simp [Json.equal, Json.content]
  | .bool _, b, _, _ => by cases b <;> simp [Json.equal, Json.content]
  | .whole _, b, _, _ => by cases b <;> simp [Json.equal, Json.content]
  | .float x, b, _, _ => by cases b <;> simp [Json.equal, Json.content, Binary64.equal_iff]
  | .string _, b, _, _ => by cases b <;> simp [Json.equal, Json.content]
  | .array items, b, ha, hb => by
    cases b with
    | array others =>
      simpa [Json.equal, Json.content] using equalItems_iff_content items others ha hb
    | null => simp [Json.equal, Json.content]
    | bool b => simp [Json.equal, Json.content]
    | whole n => simp [Json.equal, Json.content]
    | float x => simp [Json.equal, Json.content]
    | string s => simp [Json.equal, Json.content]
    | object es => simp [Json.equal, Json.content]
  | .object es, b, ha, hb => by
    cases b with
    | object fs =>
      rw [Json.wellFormed_object] at hb
      have hentries := equal_iff_contentEntries es fs (Json.wellFormed_object.mp ha).2 hb.2
      have hin := entriesIn_iff_of_equal hentries
      have hsame := contentEntry_eq_iff (Json.wellFormed_object.mp ha).1 hb.1
      simp only [Json.equal, Bool.and_eq_true, beq_iff_eq, hin, Json.content, Content.object.injEq]
      exact hsame
    | null => simp [Json.equal, Json.content]
    | bool b => simp [Json.equal, Json.content]
    | whole n => simp [Json.equal, Json.content]
    | float x => simp [Json.equal, Json.content]
    | string s => simp [Json.equal, Json.content]
    | array items => simp [Json.equal, Json.content]
termination_by structural a => a

/-- The same item by item. -/
theorem equalItems_iff_content : ∀ (items others : List Json), itemsWellFormed items →
    itemsWellFormed others →
    (Json.equalItems items others = true ↔ contentItems items = contentItems others)
  | [], others, _, _ => by cases others <;> simp [Json.equalItems]
  | a :: as, others, ha, hb => by
    cases others with
    | nil => simp [Json.equalItems]
    | cons b bs =>
      have hfirst := Json.equal_iff_content a b ha.1 hb.1
      have hrest := equalItems_iff_content as bs ha.2 hb.2
      simp only [contentItems_eq_map] at hrest
      simp [Json.equalItems, hfirst, hrest]
termination_by structural items => items

/-- The same for the values of entries. -/
theorem equal_iff_contentEntries : ∀ (es fs : List (String × Json)),
    (∀ e ∈ es, e.2.WellFormed) → (∀ e ∈ fs, e.2.WellFormed) →
    ∀ e ∈ es, ∀ w, Entries.get? fs e.1 = some w →
      (e.2.equal w = true ↔ e.2.content = w.content)
  | [], _, _, _ => by simp
  | (k, v) :: rest, fs, hes, hfs => by
    intro e he w hw
    rcases List.mem_cons.mp he with rfl | he
    · exact Json.equal_iff_content v w (hes _ List.mem_cons_self)
        (hfs _ (Entries.mem_of_get? hw))
    · exact equal_iff_contentEntries rest fs (fun e h => hes e (List.mem_cons_of_mem _ h)) hfs e he
        w hw
termination_by structural es => es

end

/-- A well-formed value equals itself. -/
theorem Json.WellFormed.equal_self {j : Json} (h : j.WellFormed) : j.equal j = true :=
  (Json.equal_iff_content j j h h).mpr rfl

/-- The same for stored documents. -/
theorem Object.equal_iff_content {a b : Object} (ha : a.WellFormed) (hb : b.WellFormed) :
    a.equal b = true ↔ a.content = b.content :=
  Json.equal_iff_content (.object a) (.object b) ha hb

end DocumentMapper
