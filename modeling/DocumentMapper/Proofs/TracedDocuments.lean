import DocumentMapper.Proofs.AlteredValues
import DocumentMapper.Proofs.CleanSaves

/-!
# Where the marks of tracked edits lead

The marks of tracked edits stay where something can be found. A mark leads through items and keys
that are there; only its last key may be gone. In a document it begins with an attribute that has a
value, and it never goes on into an embedded document, which has a record of its own.

A value is `Traced` if all its marks come from tracked edits: documents without marks are made of
traced values, and traced documents are edited.

## Main results

* `Altered.accounted`: what an alteration keeps;
* `Value.Traced.orderly`: in a traced value every mark leads somewhere;
* `Document.traced_withValues`, `Document.traced_ofStorage`, `Document.traced_persisted`: new,
  loaded and saved documents are traced.
-/

namespace DocumentMapper

open Text DirtyPaths

/-! ### Where marks lead -/

/-- A path leads through items and keys that are there, not into documents. Its last key may be
gone. -/
inductive Passable : Option Value → List String → Prop
  | here (v : Option Value) : Passable v []
  | item {items : List Value} {i : Nat} {v : Value} {q : List String} (hv : items[i]? = some v)
      (h : Passable (some v) q) : Passable (some (.list items)) (toString i :: q)
  | entry {entries : List (String × Value)} {key : String} {q : List String}
      (h : Passable (Entries.get? entries key) q) : Passable (some (.dict entries)) (key :: q)

/-- Below a position of a document with some changed paths, as far as they do not cover it, the
records of the documents are in order: none of their paths is above another one, and each leads
somewhere from an attribute that has a value. -/
inductive Orderly : DirtyPaths → List String → Value → Prop
  | covered {d : DirtyPaths} {r : List String} (h : d.Covered r) (v : Value) : Orderly d r v
  | leaf {d : DirtyPaths} {r : List String} {v : Value} (hleaf : v.IsLeaf) : Orderly d r v
  | list {d : DirtyPaths} {r : List String} {items : List Value}
      (h : ∀ (i : Nat) v, items[i]? = some v → Orderly d (r ++ [toString i]) v) :
      Orderly d r (.list items)
  | dict {d : DirtyPaths} {r : List String} {entries : List (String × Value)}
      (h : ∀ key v, Entries.get? entries key = some v → IsSegment key → Orderly d (r ++ [key]) v) :
      Orderly d r (.dict entries)
  | document {d : DirtyPaths} {r : List String} {doc : Document}
      (hrecord : doc.dirty.Antichain)
      (hmarks : ∀ m ∈ doc.dirty.segments, ∃ name v q, m = name :: q ∧
        Entries.get? doc.values name = some v ∧ Passable (some v) q)
      (h : ∀ name v, Entries.get? doc.values name = some v → IsSegment name →
        Orderly doc.dirty [name] v) : Orderly d r (.document doc)

/-- What a record has at a position or below it leads somewhere in the value there, and so do the
records in the value. -/
structure Accounted (d : DirtyPaths) (r : List String) (v : Value) : Prop where
  antichain : d.Antichain
  passable : ∀ q, r ++ q ∈ d.segments → Passable (some v) q
  orderly : Orderly d r v

/-- In an antichain nothing is recorded below a covered position. -/
theorem DirtyPaths.Antichain.eq_nil_of_covered {d : DirtyPaths} (h : d.Antichain)
    {r q : List String} (hcovered : d.Covered r) (hm : r ++ q ∈ d.segments) : q = [] := by
  obtain ⟨m, hm', hmr⟩ := hcovered
  obtain rfl := h m hm' _ hm (hmr.trans (List.prefix_append r q))
  have hlength := hmr.length_le
  rw [List.length_append] at hlength
  exact List.eq_nil_of_length_eq_zero (by omega)

/-- The records in a value stay in order when more is marked around it. -/
theorem Orderly.mono {d d' : DirtyPaths} {r : List String} {v : Value} (h : Orderly d r v)
    (hkeeps : d.Keeps d') : Orderly d' r v := by
  induction h with
  | covered h v => exact .covered (hkeeps.covered h) v
  | leaf hleaf => exact .leaf hleaf
  | list _ ih => exact .list fun i v hv => ih i v hv hkeeps
  | dict _ ih => exact .dict fun key v hv hkey => ih key v hv hkey hkeeps
  | document hrecord hmarks h _ => exact .document hrecord hmarks h

namespace Accounted

variable {d : DirtyPaths} {r : List String}

/-- Marking a position accounts for whatever is put there. -/
theorem mark (h : d.Antichain) {path : String} (hpath : path ≠ "") (v : Value) :
    Accounted (d.mark path) (dottedSegments path) v := by
  have hcovered := d.covered_mark_self hpath
  refine ⟨antichain_mark h path, fun q hq => ?_, .covered hcovered v⟩
  rw [(antichain_mark h path).eq_nil_of_covered hcovered hq]
  exact .here _

/-- What is accounted for in a list, is so in its items. -/
theorem item {items : List Value} {i : Nat} {v : Value} (h : Accounted d r (.list items))
    (hv : items[i]? = some v) : Accounted d (r ++ [toString i]) v := by
  refine ⟨h.antichain, fun q hq => ?_, ?_⟩
  · rw [List.append_assoc] at hq
    generalize hs : toString i = s at hq
    cases h.passable _ hq with
    | @item _ k w _ hw hpassable =>
      obtain rfl := toString_injective hs
      rwa [hv.symm.trans hw]
  · cases h.orderly with
    | covered hcovered => exact .covered (hcovered.below (List.prefix_append _ _)) v
    | leaf hleaf => exact absurd hleaf id
    | list hitems => exact hitems i v hv

/-- What is accounted for in a dict, is so in the values of its keys. -/
theorem entry {entries : List (String × Value)} {key : String} {v : Value}
    (h : Accounted d r (.dict entries)) (hkey : IsSegment key)
    (hv : Entries.get? entries key = some v) : Accounted d (r ++ [key]) v := by
  refine ⟨h.antichain, fun q hq => ?_, ?_⟩
  · rw [List.append_assoc] at hq
    cases h.passable _ hq with
    | entry hpassable => rwa [hv] at hpassable
  · cases h.orderly with
    | covered hcovered => exact .covered (hcovered.below (List.prefix_append _ _)) v
    | leaf hleaf => exact absurd hleaf id
    | dict hentries => exact hentries key v hv hkey

/-- A list is accounted for after one of its items was altered. -/
theorem set_item {d' : DirtyPaths} {items : List Value} {i : Nat} {v v' : Value}
    (h : Accounted d r (.list items)) (hv : items[i]? = some v)
    (hgrows : d.GrowsAt d' (r ++ [toString i])) (h' : Accounted d' (r ++ [toString i]) v') :
    Accounted d' r (.list (items.set i v')) := by
  have hself : (items.set i v')[i]? = some v' :=
    List.getElem?_set_self (List.getElem?_eq_some_iff.mp hv).1
  have hother : ∀ k, k ≠ i → (items.set i v')[k]? = items[k]? := fun k hk =>
    List.getElem?_set_ne (Ne.symm hk)
  refine ⟨h'.antichain, fun q hq => ?_, ?_⟩
  · rcases hgrows.new _ hq with hold | hnew
    · cases hpassable : h.passable q hold with
      | here => exact .here _
      | @item _ k w q hw hrest =>
        by_cases hk : k = i
        · subst hk
          exact .item hself (h'.passable q (by simpa using hq))
        · exact .item ((hother k hk).trans hw) hrest
    · obtain ⟨q, rfl⟩ := (List.prefix_append_right_inj r).mp hnew
      exact .item hself (h'.passable q (by simpa using hq))
  · cases h.orderly with
    | covered hcovered => exact .covered (hgrows.keeps.covered hcovered) _
    | leaf hleaf => exact absurd hleaf id
    | list hitems =>
      refine .list fun k w hw => ?_
      by_cases hk : k = i
      · subst hk
        obtain rfl := Option.some.inj (hself.symm.trans hw)
        exact h'.orderly
      · exact (hitems k w ((hother k hk).symm.trans hw)).mono hgrows.keeps

/-- A dict is accounted for after one of its keys was put, removed or altered. -/
theorem set_entry {d' : DirtyPaths} {entries others : List (String × Value)} {key : String}
    (h : Accounted d r (.dict entries))
    (hother : ∀ k, k ≠ key → Entries.get? others k = Entries.get? entries k)
    (hgrows : d.GrowsAt d' (r ++ [key])) (hantichain : d'.Antichain)
    (hpassable : ∀ q, r ++ key :: q ∈ d'.segments → Passable (Entries.get? others key) q)
    (horderly : ∀ v, Entries.get? others key = some v → Orderly d' (r ++ [key]) v) :
    Accounted d' r (.dict others) := by
  refine ⟨hantichain, fun q hq => ?_, ?_⟩
  · rcases hgrows.new _ hq with hold | hnew
    · cases h.passable q hold with
      | here => exact .here _
      | @entry _ k q hrest =>
        by_cases hk : k = key
        · subst hk
          exact .entry (hpassable q hq)
        · exact .entry (hother k hk ▸ hrest)
    · obtain ⟨q, rfl⟩ := (List.prefix_append_right_inj r).mp hnew
      exact .entry (hpassable q hq)
  · cases h.orderly with
    | covered hcovered => exact .covered (hgrows.keeps.covered hcovered) _
    | leaf hleaf => exact absurd hleaf id
    | dict hentries =>
      refine .dict fun k w hw hseg => ?_
      by_cases hk : k = key
      · subst hk
        exact horderly w hw
      · exact (hentries k w (hother k hk ▸ hw) hseg).mono hgrows.keeps

/-- A document is accounted for after one of its attributes was put or altered together with its
record, if the new value is as soon as the old one was. Nothing was recorded at an attribute without
value. -/
theorem set_attribute {doc doc' : Document} {key : String} (h : Accounted d r (.document doc))
    (hkey : IsSegment key)
    (hother : ∀ name, name ≠ key → Entries.get? doc'.values name = Entries.get? doc.values name)
    (hgrows : doc.dirty.GrowsAt doc'.dirty [key]) {v' : Value}
    (hv' : Entries.get? doc'.values key = some v')
    (hvalue : doc.dirty.Antichain →
      (Entries.get? doc.values key = none → doc.dirty.NothingAt [key]) →
      (∀ v, Entries.get? doc.values key = some v → Accounted doc.dirty [key] v) →
      Accounted doc'.dirty [key] v') : Accounted d r (.document doc') := by
  refine ⟨h.antichain, fun q hq => ?_, ?_⟩
  · cases h.passable q hq with
    | here => exact .here _
  · cases h.orderly with
    | covered hcovered => exact .covered hcovered _
    | leaf hleaf => exact absurd hleaf id
    | document hrecord hmarks hattributes =>
      have hmarked : ∀ q, key :: q ∈ doc.dirty.segments →
          ∃ v, Entries.get? doc.values key = some v ∧ Passable (some v) q := by
        intro q hq
        obtain ⟨name, v, p, heq, hv, hrest⟩ := hmarks _ hq
        obtain ⟨rfl, rfl⟩ := List.cons.inj heq
        exact ⟨v, hv, hrest⟩
      have hnow : Accounted doc'.dirty [key] v' := by
        refine hvalue hrecord (fun hnone m hm hkm => ?_) fun v hv =>
          ⟨hrecord, fun q hq => ?_, hattributes key v hv hkey⟩
        · obtain ⟨q, rfl⟩ := hkm
          obtain ⟨v, hv, -⟩ := hmarked q hm
          rw [hnone] at hv
          cases hv
        · obtain ⟨w, hw, hrest⟩ := hmarked q hq
          rwa [hv.symm.trans hw]
      refine .document hnow.antichain (fun m hm => ?_) fun name w hw hname => ?_
      · rcases hgrows.new m hm with hold | ⟨q, rfl⟩
        · obtain ⟨name, w, q, rfl, hw, hrest⟩ := hmarks m hold
          by_cases hname : name = key
          · subst hname
            exact ⟨name, v', q, rfl, hv', hnow.passable q hm⟩
          · exact ⟨name, w, q, rfl, (hother name hname).trans hw, hrest⟩
        · exact ⟨key, v', q, rfl, hv', hnow.passable q hm⟩
      · by_cases heq : name = key
        · subst heq
          obtain rfl := Option.some.inj (hv'.symm.trans hw)
          exact hnow.orderly
        · exact (hattributes name w ((hother name heq).symm.trans hw) hname).mono hgrows.keeps

end Accounted

/-- **An alteration keeps accounted for what was.** -/
theorem Altered.accounted {r : List String} {d d' : DirtyPaths} {v v' : Value}
    (h : Altered r d v d' v') (hv : Accounted d r v) : Accounted d' r v' := by
  induction h with
  | refl => exact hv
  | trans _ _ ih ih' => exact ih' (ih hv)
  | marked d hpath _ v' => exact .mark hv.antichain hpath v'
  | item hitem h ih => exact hv.set_item hitem h.grows (ih (hv.item hitem))
  | @key d path entries others key hkey hother =>
    have hbelow := dottedSegments_below path hkey
    have hmark := Accounted.mark hv.antichain (ne_empty_below path key)
    have hgrows := d.growsAt_mark (path ++ "." ++ key)
    have hcovered := d.covered_mark_self (ne_empty_below path key)
    rw [hbelow] at hgrows hcovered
    refine hv.set_entry hother hgrows (hmark .null).antichain (fun q hq => ?_) fun v _ =>
      .covered hcovered v
    obtain rfl := (hmark .null).antichain.eq_nil_of_covered hcovered (by simpa using hq)
    exact .here _
  | entry hkey hother hget hget' h ih =>
    have hnow := ih (hv.entry hkey hget)
    refine hv.set_entry hother h.grows hnow.antichain (fun q hq => ?_) fun w hw => ?_
    · rw [hget']
      exact hnow.passable q (by simpa using hq)
    · obtain rfl := Option.some.inj (hget'.symm.trans hw)
      exact hnow.orderly
  | @assigned r d doc key hkey v =>
    have hgrows := doc.dirty.growsAt_mark key
    rw [dottedSegments_of_isSegment hkey.2] at hgrows
    refine hv.set_attribute hkey.2
      (fun other hother => Entries.get?_insertSorted_of_ne _ _ (Ne.symm hother)) hgrows
      (Entries.get?_insertSorted_self _ _ _) fun hrecord _ _ => ?_
    have hmark := Accounted.mark hrecord hkey.1 v
    rwa [dottedSegments_of_isSegment hkey.2] at hmark
  | @opened r d doc key container hkey hmissing hcontainer =>
    refine hv.set_attribute hkey.2
      (fun other hother => Entries.get?_insertSorted_of_ne _ _ (Ne.symm hother)) (.refl _ _)
      (Entries.get?_insertSorted_self _ _ _) fun hrecord hnothing hold => ⟨hrecord, fun q hq => ?_, ?_⟩
    · rcases hmissing with hnone | hnull
      · exact absurd (List.prefix_append [key] q) (hnothing hnone _ hq)
      · cases (hold _ hnull).passable q hq with
        | here => exact .here _
    · rcases hcontainer with rfl | rfl
      · exact .list fun i v hv => by simp at hv
      · exact .dict fun key v hv => by simp at hv
  | inside r d hkey hother hget hget' h ih =>
    exact hv.set_attribute hkey.2 hother h.grows hget' fun _ _ hold => ih (hold _ hget)

/-! ### Traced values -/

/-- All marks in a value come from tracked edits: documents without marks are made of traced values,
and traced documents are edited. -/
inductive Value.Traced : Value → Prop
  | leaf {v : Value} (hleaf : v.IsLeaf) : Traced v
  | list {items : List Value} (h : ∀ v ∈ items, Traced v) : Traced (.list items)
  | dict {entries : List (String × Value)} (h : ∀ e ∈ entries, Traced e.2) :
      Traced (.dict entries)
  | document {doc : Document} (hrecord : doc.dirty = .empty) (h : ∀ e ∈ doc.values, Traced e.2) :
      Traced (.document doc)
  | edited {doc doc' : Document} (h : Traced (.document doc))
      (hedited : Document.Edited none doc doc') : Traced (.document doc')

/-- Where a document stands makes no difference to the order of its records. -/
theorem Orderly.elsewhere {doc : Document} (h : Orderly .empty [] (.document doc)) (d : DirtyPaths)
    (r : List String) : Orderly d r (.document doc) := by
  cases h with
  | covered hcovered => exact absurd hcovered (not_covered_empty _)
  | leaf hleaf => exact absurd hleaf id
  | document hrecord hmarks h => exact .document hrecord hmarks h

/-- **The records in a traced value are in order.** -/
theorem Value.Traced.orderly {v : Value} (h : v.Traced) (d : DirtyPaths) (r : List String) :
    Orderly d r v := by
  induction h generalizing d r with
  | leaf hleaf => exact .leaf hleaf
  | list _ ih => exact .list fun i v hv => ih v (List.mem_of_getElem? hv) _ _
  | dict _ ih => exact .dict fun key v hv _ => ih (key, v) (Entries.mem_of_get? hv) _ _
  | document hrecord _ ih =>
    refine .document (by simp [hrecord]) (by simp [hrecord]) fun name v hv _ => ?_
    exact ih (name, v) (Entries.mem_of_get? hv) _ _
  | @edited doc doc' _ hedited ih =>
    have hstart : Accounted .empty [] (.document doc) :=
      ⟨antichain_empty, fun q hq => (List.not_mem_nil hq).elim, ih .empty []⟩
    exact ((hedited.altered [] .empty).accounted hstart).orderly.elsewhere d r

mutual

/-- A value without marks is traced. -/
theorem Value.traced_unmarked : ∀ (v : Value), v.unmarked.Traced
  | .list items => .list (traced_unmarkedItems items)
  | .dict entries => .dict (traced_unmarkedEntries entries)
  | .document doc => Document.traced_unmarked doc
  | .null => .leaf trivial
  | .bool _ => .leaf trivial
  | .int _ => .leaf trivial
  | .float _ => .leaf trivial
  | .string _ => .leaf trivial
  | .datetime _ => .leaf trivial
  | .reference _ => .leaf trivial
  | .linked _ => .leaf trivial
termination_by structural v => v

/-- The same for some values. -/
theorem traced_unmarkedItems : ∀ (vs : List Value), ∀ v ∈ unmarkedItems vs, v.Traced
  | [], _, h => (List.not_mem_nil h).elim
  | w :: ws, v, h => by
    rcases List.mem_cons.mp h with rfl | h
    · exact Value.traced_unmarked w
    · exact traced_unmarkedItems ws v h
termination_by structural vs => vs

/-- The same for some entries. -/
theorem traced_unmarkedEntries : ∀ (es : List (String × Value)), ∀ e ∈ unmarkedEntries es,
    e.2.Traced
  | [], _, h => (List.not_mem_nil h).elim
  | (k, w) :: rest, e, h => by
    rcases List.mem_cons.mp h with rfl | h
    · exact Value.traced_unmarked w
    · exact traced_unmarkedEntries rest e h
termination_by structural es => es

/-- The same for a document. -/
theorem Document.traced_unmarked : ∀ (doc : Document), (Value.document doc.unmarked).Traced
  | ⟨_, values, _, _⟩ => .document rfl (traced_unmarkedEntries values)
termination_by structural doc => doc

end

/-- Filling in traced values marks nothing. -/
theorem Document.traced_fill {doc filled : Document} {values : List (String × Value)}
    (hrecord : doc.dirty = .empty) (hheld : ∀ e ∈ doc.values, e.2.Traced)
    (hvalues : ∀ e ∈ values, e.2.Traced) (h : doc.fill values = .ok filled) :
    (Value.document filled).Traced := by
  induction values generalizing doc with
  | nil =>
    cases h
    exact .document hrecord hheld
  | cons e rest ih =>
    obtain ⟨name, v⟩ := e
    obtain ⟨hv, hrest⟩ := List.forall_mem_cons.mp hvalues
    obtain ⟨key, -, hfill⟩ := bind_eq_ok.mp h
    have hput : ∀ e ∈ (doc.put key v).values, e.2.Traced := by
      intro e he
      rcases Entries.mem_insertSorted he with he | rfl
      · exact hheld e he
      · exact hv
    have hclean : (doc.put key v).dirty = .empty := hrecord
    exact ih hclean hput hrest hfill

/-- **A new document with traced values is traced.** -/
theorem Document.traced_withValues {t : DocumentType} {doc : Document}
    {values : List (String × Value)} (hvalues : ∀ e ∈ values, e.2.Traced)
    (h : withValues t values = .ok doc) : (Value.document doc).Traced := by
  have hclean : (new t).dirty = .empty := rfl
  have hheld : ∀ e ∈ (new t).values, e.2.Traced := fun _ he => (List.not_mem_nil he).elim
  exact traced_fill hclean hheld hvalues h

/-- **A loaded document is traced.** -/
theorem Document.traced_ofStorage (c : Catalog) (t : DocumentType) (raw : Object) :
    (Value.document (ofStorage c t raw)).Traced := by
  rw [← ofStorage_unmarked]
  exact traced_unmarked _

/-- **A document is traced after a save.** -/
theorem Document.traced_persisted (doc : Document) (raw : Object) :
    (Value.document (doc.persisted raw)).Traced := by
  obtain ⟨type, values, dirty, old⟩ := doc
  exact .document rfl (traced_unmarkedEntries values)

end DocumentMapper
