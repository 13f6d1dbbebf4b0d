import DocumentMapper.Proofs.ArrayUpdates
import DocumentMapper.Proofs.DeltaAgreement
import DocumentMapper.Proofs.EmbeddedPaths
import DocumentMapper.Proofs.EqualityOperands
import DocumentMapper.Proofs.EscapedNames
import DocumentMapper.Proofs.StoredTrees

/-!
# Operations on lists

The operations on a field that is a list of scalars are functions on lists. What a keyword asks for
crosses three representations: the operation with its value, the operator of the update document
with its modifiers, and the array in the document. `ListChange` says which function an operation is,
`ListEntry` which function an entry of an update document is, and they are the same ones.

The list may stand below embedded documents. Where the document has no array yet, one is created,
which is possible as long as nothing else stands in its way.

## Main results

* `insertEach_eq`, `insertEach_unique_length`: what inserting item by item comes to;
* `Scalar.Holds.stores`: which values can be operands;
* `ListEntry.applyOperator`: an entry of an update document is its function on the array;
* `ListChange.compileUpdate_yields`: an operation is rendered as an entry for the same function;
* `list_operation_computes`: an operation is its function on the list.
-/

namespace DocumentMapper

open Text

/-! ### Inserting item by item -/

/-- The items with others in front of the one at position `n`, or at the end of a shorter list. -/
def insertAt (n : Nat) (js xs : List Json) : List Json :=
  xs.take n ++ js ++ xs.drop n

/-- The items with those of some others behind them that are not there yet, in order. -/
def addMissing (js xs : List Json) : List Json :=
  js.foldl (fun items j => if Json.isIn items j then items else items ++ [j]) xs

/-- An item that is inserted behind some others. -/
theorem insertIdx_length_append (front back : List Json) (j : Json) :
    (front ++ back).insertIdx front.length j = front ++ j :: back := by
  induction front with
  | nil => rfl
  | cons x front ih => simp [ih]

/-- **Each inserted value stands behind the one before.** -/
theorem insertEach_append (js front back : List Json) :
    insertEach false js front.length (front ++ back) = front ++ js ++ back := by
  induction js generalizing front with
  | nil => rw [insertEach, List.append_nil]
  | cons j js ih =>
    have hnext := ih (front ++ [j])
    rw [List.length_append, List.length_singleton, List.append_cons] at hnext
    simp only [List.append_assoc, List.cons_append, List.nil_append] at hnext ⊢
    rw [insertEach, Bool.false_and, if_neg Bool.false_ne_true, insertIdx_length_append]
    exact hnext

theorem insertEach_eq (js xs : List Json) (n : Nat) :
    insertEach false js (min n xs.length) xs = insertAt n js xs := by
  have happend := insertEach_append js (xs.take n) (xs.drop n)
  rwa [List.take_append_drop, List.length_take] at happend

theorem insertAt_length (js xs : List Json) : insertAt xs.length js xs = xs ++ js := by
  simp [insertAt]

/-- **Unique values are added at the end unless they are there.** -/
theorem insertEach_unique_length (js xs : List Json) :
    insertEach true js xs.length xs = addMissing js xs := by
  induction js generalizing xs with
  | nil => rfl
  | cons j js ih =>
    rw [insertEach, Bool.true_and, addMissing, List.foldl_cons]
    by_cases hmem : Json.isIn xs j = true
    · rw [if_pos hmem, if_pos hmem]
      exact ih xs
    · rw [if_neg hmem, if_neg hmem, List.insertIdx_length_self, ← List.length_concat,
        List.concat_eq_append]
      exact ih (xs ++ [j])

/-! ### Entries of update documents -/

/-- An operator and its operand in an update document are a function on the array at a path. -/
inductive ListEntry : String → Json → (List Json → List Json) → Prop
  | push {j : Json} (hj : j.IsAtom) : ListEntry "$push" j (· ++ [j])
  | pushEach (js : List Json) : ListEntry "$push" (.single "$each" (.array js)) (· ++ js)
  | pushAt {n : Nat} (hn : n < Number.wordCount) (js : List Json) :
      ListEntry "$push" (.object [("$each", .array js), ("$position", Json.ofNat n)])
        (insertAt n js)
  | add {j : Json} (hj : j.IsAtom) : ListEntry "$addToSet" j (addMissing [j])
  | addEach (js : List Json) : ListEntry "$addToSet" (.single "$each" (.array js)) (addMissing js)
  | pull {j : Json} (hj : j.IsAtom) : ListEntry "$pull" j (List.filter fun x => !x.equal j)
  | pullAll (js : List Json) :
      ListEntry "$pullAll" (.array js) (List.filter fun x => !Json.isIn js x)
  | popFirst {j : Json} (hj : j.asInt64? = some (-1)) : ListEntry "$pop" j (List.drop 1)
  | popLast {j : Json} (hj : j.asInt64? ≠ some (-1)) : ListEntry "$pop" j List.dropLast

section

variable {j : Json}

/-- A value that is no object is pushed as it is. -/
theorem Json.IsAtom.pushedValues (hj : j.IsAtom) :
    DocumentMapper.pushedValues j = .ok ([j], none) := by
  cases j <;> first | rfl | exact hj.elim

/-- What is no object is compared with an item. -/
theorem Json.IsAtom.itemMeets (hj : j.IsAtom) (item : Json) :
    DocumentMapper.itemMeets item j = .ok (item.equal j) := by
  cases j <;> first | rfl | exact hj.elim

/-- Stated for the functions: at a variable count the bounds of the range would be unfolded one by
one. -/
theorem Json.ofNat_eq :
    Json.ofNat = fun n : Nat => ((Number.Whole.ofInt? n).map Json.whole).getD .null := by
  delta Json.ofNat
  funext n
  generalize Number.Whole.ofInt? n = w
  cases w <;> rfl

theorem Json.asNat?_ofNat {n : Nat} (hn : n < Number.wordCount) :
    (Json.ofNat n).asNat? = some n := by
  have hupper : (n : Int) < Number.wordCount := Int.ofNat_lt.mpr hn
  obtain ⟨w, hw, hval⟩ : ∃ w, Number.Whole.ofInt? n = some w ∧ w.val = n :=
    ⟨⟨n, by omega, hupper⟩, Number.Whole.ofInt?_eq_some_iff.mpr rfl, rfl⟩
  have hnat : 0 ≤ w.val := hval ▸ Int.natCast_nonneg n
  have hwhole : Json.ofNat n = .whole w := by
    rw [ofNat_eq]
    exact congrArg (fun w => (Option.map Json.whole w).getD .null) hw
  rw [hwhole, asNat?, Number.Whole.toNat?, if_pos hnat, hval, Int.toNat_natCast]

/-- Values that are to be pushed to a place. -/
theorem pushedValues_position (js : List Json) (position : Json) :
    pushedValues (.object [("$each", .array js), ("$position", position)]) =
      .ok (js, position.asNat?) :=
  rfl

variable {operator path : String} {F : List Json → List Json} {doc : Object} {xs : List Json}

/-- **An entry of an update document is its function on the array.** -/
theorem ListEntry.applyOperator (h : ListEntry operator j F) (hholds : HoldsArray doc path xs)
    (inserting : Bool) :
    ∃ doc', doc.applyOperator operator path j inserting = ⟨doc', none⟩ ∧
      doc'.getPath? path = some (.array (F xs)) := by
  have hrun : ∀ {change : Except StoreError Object} {items : List Json},
      (∃ doc', change = .ok doc' ∧ doc'.getPath? path = some (.array items)) →
      ∃ doc', Applied.ofExcept doc change = ⟨doc', none⟩ ∧
        doc'.getPath? path = some (.array items) := by
    rintro _ items ⟨doc', rfl, hread⟩
    exact ⟨doc', rfl, hread⟩
  have hpush : ∀ {j : Json} {js : List Json} {place : Option Nat},
      pushedValues j = .ok (js, place) →
      ∃ doc', Applied.ofExcept doc (doc.push path "$push" false j) = ⟨doc', none⟩ ∧
        doc'.getPath? path = some (.array (insertAt (place.getD xs.length) js xs)) := by
    intro j js place hvalues
    rw [← insertEach_eq]
    exact hrun (hholds.push "$push" hvalues)
  have hadd : ∀ {j : Json} {js : List Json}, pushedValues j = .ok (js, none) →
      ∃ doc', Applied.ofExcept doc (doc.push path "$addToSet" true j) = ⟨doc', none⟩ ∧
        doc'.getPath? path = some (.array (addMissing js xs)) := by
    intro j js hvalues
    have hplace : min ((none : Option Nat).getD xs.length) xs.length = xs.length := Nat.min_self _
    rw [← insertEach_unique_length, ← hplace]
    exact hrun (hholds.push "$addToSet" hvalues)
  cases h with
  | push hj =>
    have hend := hpush hj.pushedValues
    rwa [Option.getD_none, insertAt_length] at hend
  | pushEach js =>
    have hvalues : pushedValues (.single "$each" (.array js)) = .ok (js, none) := rfl
    have hend := hpush hvalues
    rwa [Option.getD_none, insertAt_length] at hend
  | @pushAt n hn js =>
    have hvalues := pushedValues_position js (Json.ofNat n)
    rw [Json.asNat?_ofNat hn] at hvalues
    exact hpush hvalues
  | add hj => exact hadd hj.pushedValues
  | addEach js => exact hadd rfl
  | pull hj => exact hholds.pull "$pull" (itemsNotMeeting_eq_ok _ fun item _ => hj.itemMeets item)
  | pullAll js => exact hrun (hholds.pullAll "$pullAll" js)
  | popFirst hj =>
    have hfirst : (fun items => if j.asInt64? == some (-1) then items.drop 1 else items.dropLast) =
        (List.drop 1 : List Json → List Json) := by simp only [hj, beq_self_eq_true, ↓reduceIte]
    exact hfirst ▸ hrun (hholds.changeArray "$pop" _)
  | popLast hj =>
    have hlast : (fun items => if j.asInt64? == some (-1) then items.drop 1 else items.dropLast) =
        (List.dropLast : List Json → List Json) := by simp [hj]
    exact hlast ▸ hrun (hholds.changeArray "$pop" _)

end

/-! ### Values and operands -/

/-- A field stores a scalar value as `j`. -/
structure Field.Stores (f : Field) (v : Value) (j : Json) : Prop where
  scalar : v.IsScalar
  notNull : v.isNull = false
  encoded : (v.encode f).Yields j

section

variable {f g element : Field} {s : Scalar} {v : Value} {vs : List Value} {j : Json}
  {js : List Json} {op : String}

/-- **A field without rules stores every scalar that it is for.** -/
theorem Scalar.Holds.stores (hs : f.kind = .scalar s) (hrule : f.validator = none)
    (hv : v.IsScalar) (hnull : v.isNull = false) (h : s.Holds v) : ∃ j, f.Stores v j := by
  obtain ⟨j, hj, -⟩ := h.decode_eq .empty hs hrule
  exact ⟨j, hv, hnull, hj⟩

theorem Field.Stores.encodeScalar (hs : f.kind = .scalar s) (h : f.Stores v j) :
    ∃ σ, (f.encodeScalar s v).runFrom σ = (.ok j, .fresh) := by
  have hleaf : (f.encodeLeaf v).runFrom .fresh = (.ok j, .fresh) := by
    have hencoded := h.encoded .fresh
    cases v with
    | null => cases h.notNull
    | list | dict | document | reference | linked => exact h.scalar.elim
    | _ => exact hencoded
  simp only [encodeLeaf, hs, Drawing.runFrom_bind_eq_ok] at hleaf
  obtain ⟨-, σ, -, hscalar⟩ := hleaf
  exact ⟨σ, hscalar⟩

/-- What a field of scalars stores for a scalar is an atom. -/
theorem Field.Stores.isAtom (hs : f.kind = .scalar s) (h : f.Stores v j) : j.IsAtom := by
  have hv : v.isContainer = false := by
    cases v <;> first | rfl | exact h.scalar.elim
  rcases Field.isAtom_of_encode hs hv (h.encoded .fresh) with hatom | rfl | rfl
  · exact hatom
  · obtain ⟨σ, hplain⟩ := h.encodeScalar hs
    simp only [Field.encodeScalar] at hplain
    cases v with
    | float x =>
      obtain ⟨y, -, rfl, -⟩ := Number.Double.toJson_eq_ok.mp hplain
      trivial
    | null => cases h.notNull
    | list | dict | document | reference | linked => exact h.scalar.elim
    | _ =>
      obtain rfl := Except.ok.inj (Prod.mk.inj hplain).1
      trivial
  · cases h.notNull

/-- **An operator that compares no texts has the stored form as its operand.** -/
theorem Field.Stores.operand (hs : f.kind = .scalar s) (hop : isTextOperator op = false)
    (h : f.Stores v j) : (f.operand (some op) v).Yields j := by
  have hencoded := h.encoded
  rw [f.operand_of_not_text hs hop, if_neg (by simp [h.notNull])]
  cases v with
  | string text =>
    -- Numbers are read from a text, but a field of numbers stores none.
    obtain ⟨σ, hscalar⟩ := h.encodeScalar hs
    have hnumber : s ≠ .int ∧ s ≠ .float := by
      constructor <;>
      · rintro rfl
        simp [Field.encodeScalar, Field.mismatch, Field.refuse] at hscalar
    rw [Field.scalarOperand, if_neg hnumber.1, if_neg hnumber.2]
    exact hencoded
  | list | dict => exact h.scalar.elim
  | _ => exact hencoded

/-- Among the scalars only minus one is stored as minus one. -/
theorem Value.asInt64?_plain_ne (hv : v.IsScalar) (hne : v ≠ .int (-1)) (h : v.plain.Yields j) :
    j.asInt64? ≠ some (-1) := by
  have hplain := h .fresh
  intro hword
  cases v with
  | int n =>
    obtain rfl := Except.ok.inj (Prod.mk.inj hplain).1
    have hsame : (Number.Whole.ofInt64 n).toInt64? = some (-1) := hword
    rw [Number.Whole.toInt64?_ofInt64] at hsame
    exact hne (congrArg Value.int (Option.some.inj hsame))
  | float x =>
    obtain ⟨y, -, rfl, -⟩ := Number.Double.toJson_eq_ok.mp hplain
    cases hword
  | list | dict | document | reference | linked => exact hv.elim
  | _ =>
    obtain rfl := Except.ok.inj (Prod.mk.inj hplain).1
    cases hword

/-- A list leaves a scalar to the field of its items. -/
theorem Field.Stores.operand_list (hlist : g.kind = .list element) (hs : element.kind = .scalar s)
    (hop : isTextOperator op = false) (h : element.Stores v j) :
    (g.operand (some op) v).Yields j := by
  obtain ⟨name, storageName, isRequired, kind, dflt, validator⟩ := g
  obtain rfl : kind = .list element := hlist
  have hitem := h.operand hs hop
  have hnull := h.notNull
  rw [Field.operand, if_neg (by simp [hnull])]
  cases v with
  | list => exact h.scalar.elim
  | _ => exact hitem

theorem Field.yields_operands (hlist : g.kind = .list element) (hs : element.kind = .scalar s)
    (hop : isTextOperator op = false) (h : List.Forall₂ element.Stores vs js) :
    (vs.mapM fun v => g.operand (some op) v).Yields js := by
  induction h with
  | nil => exact .pure _
  | cons hfirst _ ih =>
    rw [List.mapM_cons]
    exact .bind (hfirst.operand_list hlist hs hop) (.bind ih (.pure _))

/-- One value of an operation on a list. -/
theorem Field.Stores.updateOperand (hlist : g.kind = .list element) (hs : element.kind = .scalar s)
    (hop : op ∈ ["push", "addToSet", "pull"]) (h : element.Stores v j) :
    (g.updateOperand op none v).Yields j := by
  have htext : ∀ o ∈ ["push", "addToSet", "pull"], isTextOperator o = false := by decide
  have hyields := h.operand_list hlist hs (htext op hop)
  have hscalar := h.scalar
  simp only [List.mem_cons, List.not_mem_nil, or_false] at hop
  obtain rfl | rfl | rfl := hop <;>
    cases v with
    | list => exact hscalar.elim
    | _ => simpa [Field.updateOperand, hlist, isItemwise] using hyields

/-- Several values of an operation on a list. -/
theorem Field.updateOperand_list (hlist : g.kind = .list element) (hs : element.kind = .scalar s)
    (hop : op ∈ ["push", "pushAll", "addToSet", "pullAll"])
    (h : List.Forall₂ element.Stores vs js) :
    (g.updateOperand op none (.list vs)).Yields (.array js) := by
  have htext : ∀ o ∈ ["push", "pushAll", "addToSet", "pullAll"], isTextOperator o = false := by
    decide
  have hyields : (do return Json.array (← vs.mapM fun v => g.operand (some op) v) :
      Drawing Json).Yields (.array js) :=
    .bind (Field.yields_operands hlist hs (htext op hop) h) (.pure _)
  simp only [List.mem_cons, List.not_mem_nil, or_false] at hop
  obtain rfl | rfl | rfl | rfl := hop <;>
    simpa [Field.updateOperand, hlist, isItemwise] using hyields

end

/-! ### Operations -/

/-- An operation is a function on the list in a field. It is one on the whole list, or at a position
that its path ends in. -/
inductive ListChange (element : Field) :
    String → Option String → Value → (List Json → List Json) → Prop
  | push {v : Value} {j : Json} (h : element.Stores v j) :
      ListChange element "push" none v (· ++ [j])
  | pushAll {vs : List Value} {js : List Json} (h : List.Forall₂ element.Stores vs js) :
      ListChange element "push_all" none (.list vs) (· ++ js)
  | pushAt {v : Value} {j : Json} {i : String} {n : Nat} (hi : isIndex i = true)
      (hn : position? i = some n) (h : element.Stores v j) :
      ListChange element "push" (some i) v (insertAt n [j])
  | pushAllAt {vs : List Value} {js : List Json} {i : String} {n : Nat} (hi : isIndex i = true)
      (hn : position? i = some n) (h : List.Forall₂ element.Stores vs js) :
      ListChange element "push" (some i) (.list vs) (insertAt n js)
  | add {v : Value} {j : Json} (h : element.Stores v j) :
      ListChange element "add_to_set" none v (addMissing [j])
  | addAll {vs : List Value} {js : List Json} (h : List.Forall₂ element.Stores vs js) :
      ListChange element "add_to_set" none (.list vs) (addMissing js)
  | pull {v : Value} {j : Json} (h : element.Stores v j) :
      ListChange element "pull" none v (List.filter fun x => !x.equal j)
  | pullAll {vs : List Value} {js : List Json} (h : List.Forall₂ element.Stores vs js) :
      ListChange element "pull_all" none (.list vs) (List.filter fun x => !Json.isIn js x)
  | popFirst : ListChange element "pop" none (.int (-1)) (List.drop 1)
  | popLast {v : Value} {j : Json} (hv : v.IsScalar) (hne : v ≠ .int (-1)) (h : v.plain.Yields j) :
      ListChange element "pop" none v List.dropLast

/-- A path of names that leads through embedded documents to a list of scalars. -/
structure LeadsToList (c : Catalog) (t : DocumentType) (path : String) (fields : List Field)
    (g element : Field) : Prop where
  names : IsNamePath path
  ends : ∀ last ∈ (keywordSegments path).getLast?, last ∉ comparisonOperators
  way : EmbeddedPath c t (keywordSegments path) fields g
  list : g.kind = .list element
  scalars : ∃ s, element.kind = .scalar s
  /-- The number that an insertion ends in is not the name of the list. -/
  noIndex : isIndex g.storageName = false

/-- A path, with a position behind it where there is one. -/
def positioned (path : String) : Option String → String
  | none => path
  | some i => path ++ "__" ++ i

section

variable {c : Catalog} {t : DocumentType} {path op : String} {fields front : List Field}
  {g element : Field} {place : Option String} {v : Value} {j : Json} {F : List Json → List Json}

/-- What is removed from a list, whether the list has a path or only a name. -/
theorem operationBody_removal (hlist : g.kind.isList = true) (hremoval : IsRemoval op) (j : Json) :
    operationBody (nativeOperator op) ((front ++ [g]).map .field) j =
      (updateOperator op, [(storagePath ((front ++ [g]).map .field), j)]) := by
  have hpull : ∀ operator, pullBelow operator ((front ++ [g]).map .field)
      (((front ++ [g]).map .field).map PathElement.storageName) j =
        ("$" ++ operator, [(storagePath ((front ++ [g]).map .field), j)]) := by
    intro operator
    rw [storagePath, EmbeddedPath.storageNames]
    exact pullBelow_list hlist operator
  generalize (front ++ [g]).map PathElement.field = elements at hpull ⊢
  unfold storagePath at hpull ⊢
  rcases hremoval with rfl | rfl <;>
    simp [operationBody, nativeOperator, updateOperator, hpull]

/-- The body of an insertion at a position. -/
theorem operationBody_push_position (fields : List Field) {i : String} {n : Nat}
    (hi : isIndex i = true) (hn : position? i = some n) (j : Json) :
    operationBody "push" (fields.map .field ++ [.position i]) j =
      ("$push", [(storagePath (fields.map .field),
        .object [("$each", asItems j), ("$position", Json.ofNat n)])]) := by
  have hlast : (fields.map Field.storageName ++ [i]).getLast? = some i := by simp
  have hnumber : natural? Number.wordCount i.toList = some n := hn
  have hstorage : (fields.map PathElement.field ++ [PathElement.position i]).map
      PathElement.storageName = fields.map Field.storageName ++ [i] := by
    rw [List.map_append, EmbeddedPath.storageNames]
    rfl
  rw [show "push" = nativeOperator "push" from rfl, operationBody_insertion (.inl rfl), hstorage]
  simp only [pushInto, hlast, hi, hnumber, ↓reduceIte, List.dropLast_concat, Option.getD_some,
    storagePath, EmbeddedPath.storageNames]

theorem lt_of_position? {i : String} {n : Nat} (hn : position? i = some n) :
    n < Number.wordCount := by
  unfold position? natural? at hn
  obtain ⟨hbound, hvalue⟩ := Option.ite_none_right_eq_some.mp hn
  rw [← Option.some.inj hvalue]
  simpa using (Bool.and_eq_true_iff.mp hbound).2

/-- A number is one segment. -/
theorem keywordSegments_of_isIndex {i : String} (hi : isIndex i = true) :
    keywordSegments i = [i] := by
  have hdigits : ∀ d ∈ i.toList, d.isDigit = true := by
    simp only [isIndex, isDigits, Bool.and_eq_true, List.all_eq_true] at hi
    exact hi.2
  have hnone : ¬ ['_', '_'] <:+: i.toList := fun hpair =>
    absurd (hdigits '_' (hpair.subset List.mem_cons_self)) (by decide)
  rw [Text.keywordSegments, splitAtUnderscores_of_not_infix hnone]
  simp

namespace LeadsToList

/-- An operation on the whole list is rendered at its path. -/
theorem compileUpdate_whole (h : LeadsToList c t path fields g element) (hop : op ∈ updateOperators)
    (hdec : op ≠ "dec") (hoperand : (g.updateOperand (nativeOperator op) none v).Yields j) :
    (compileUpdate c t [(op ++ "__" ++ path, v)]).Yields
      [(updateOperator op, .single (storagePath (fields.map .field)) (listed op j))] := by
  have hends : EndsInField (keywordSegments path) := fun last hlast =>
    ⟨(h.names last (List.mem_of_getLast? hlast)).1, h.ends last hlast⟩
  have hbody : operationBody (nativeOperator op) (fields.map .field) j =
      (updateOperator op, [(storagePath (fields.map .field), listed op j)]) := by
    obtain ⟨front, hfields, -⟩ := h.way.fields_eq
    by_cases hremoval : IsRemoval op
    · have hlisted : listed op j = j := by rcases hremoval with rfl | rfl <;> rfl
      rw [hlisted, hfields]
      exact operationBody_removal (by rw [h.list]; rfl) hremoval j
    · refine operationBody_eq hop hremoval fun hplace => ?_
      obtain ⟨-, last, hlast, hindex⟩ := hplace
      obtain rfl : g.storageName = last := by
        simpa [hfields, PathElement.storageName] using hlast
      rw [h.noIndex] at hindex
      cases hindex
  intro σ
  refine (compileUpdate_field_eq_ok hop hdec hends).mpr
    ⟨_, g, j, h.way.resolve, h.way.terminalField?, hoperand σ, ?_⟩
  rw [hbody]
  rfl

/-- An insertion at a position is rendered with its position. -/
theorem compileUpdate_position (h : LeadsToList c t path fields g element) {i : String} {n : Nat}
    (hi : isIndex i = true) (hn : position? i = some n)
    (hoperand : (g.updateOperand "push" none v).Yields j) :
    (compileUpdate c t [("push" ++ "__" ++ (path ++ "__" ++ i), v)]).Yields
      [("$push", .single (storagePath (fields.map .field))
        (.object [("$each", asItems j), ("$position", Json.ofNat n)]))] := by
  have hsegments : keywordSegments (path ++ "__" ++ i) = keywordSegments path ++ [i] := by
    rw [keywordSegments_append h.names.takesSegments, keywordSegments_of_isIndex hi]
  have hends : EndsInField (keywordSegments (path ++ "__" ++ i)) := by
    intro last hlast
    obtain rfl : i = last := by simpa [hsegments] using hlast
    have hall : ∀ op ∈ comparisonOperators, isIndex op = false := by decide
    refine ⟨?_, fun hmem => ?_⟩
    · rintro rfl
      cases hi
    · rw [hall i hmem] at hi
      cases hi
  have hresolve : c.resolve t (keywordSegments path ++ [i]) =
      .ok (fields.map .field ++ [.position i]) := by
    refine h.way.resolve_append fun quoted => ?_
    have henter : g.enter c quoted i = .ok (.position i, element) := by
      rw [Field.enter_eq, h.list, Kind.enter, if_pos (isPositional_of_isIndex hi),
        positionSegment_of_isIndex hi]
      rfl
    exact bind_eq_ok.mpr ⟨_, henter, rfl⟩
  have hfield : terminalField? (fields.map .field ++ [.position i]) = some g := by
    rw [terminalField?_position, h.way.terminalField?]
  intro σ
  refine (compileUpdate_field_eq_ok (by decide) (by decide) hends).mpr
    ⟨_, g, j, hsegments ▸ hresolve, hfield, hoperand σ, ?_⟩
  rw [show nativeOperator "push" = "push" from rfl, operationBody_push_position fields hi hn]
  rfl

end LeadsToList

/-- **An operation is rendered as an entry for the same function**, at the path of the list. -/
theorem ListChange.compileUpdate_yields (hpath : LeadsToList c t path fields g element)
    (h : ListChange element op place v F) :
    ∃ operator body, ListEntry operator body F ∧
      (compileUpdate c t [(op ++ "__" ++ positioned path place, v)]).Yields
        [(operator, .single (storagePath (fields.map .field)) body)] := by
  obtain ⟨s, hs⟩ := hpath.scalars
  have hpop : ∀ v, g.updateOperand (nativeOperator "pop") none v = v.plain := by
    intro v
    simp [Field.updateOperand, nativeOperator, hpath.list, isItemwise]
  cases h with
  | push h =>
    exact ⟨_, _, .push (h.isAtom hs), hpath.compileUpdate_whole (by decide) (by decide)
      (h.updateOperand hpath.list hs (by decide))⟩
  | pushAll h =>
    exact ⟨_, _, .pushEach _, hpath.compileUpdate_whole (by decide) (by decide)
      (Field.updateOperand_list hpath.list hs (by decide) h)⟩
  | @pushAt v j i n hi hn h =>
    have hitems : asItems j = .array [j] := by
      cases j <;> first | rfl | exact (h.isAtom hs).elim
    exact ⟨_, _, .pushAt (lt_of_position? hn) [j], hitems ▸ hpath.compileUpdate_position hi hn
      (h.updateOperand hpath.list hs (by decide))⟩
  | @pushAllAt vs js i n hi hn h =>
    exact ⟨_, _, .pushAt (lt_of_position? hn) js, hpath.compileUpdate_position hi hn
      (Field.updateOperand_list hpath.list hs (by decide) h)⟩
  | @add v j h =>
    have hlisted : listed "add_to_set" j = j := by
      cases j <;> first | rfl | exact (h.isAtom hs).elim
    exact ⟨_, _, .add (h.isAtom hs), hlisted ▸ hpath.compileUpdate_whole (by decide) (by decide)
      (h.updateOperand hpath.list hs (by decide))⟩
  | addAll h =>
    exact ⟨_, _, .addEach _, hpath.compileUpdate_whole (by decide) (by decide)
      (Field.updateOperand_list hpath.list hs (by decide) h)⟩
  | pull h =>
    exact ⟨_, _, .pull (h.isAtom hs), hpath.compileUpdate_whole (by decide) (by decide)
      (h.updateOperand hpath.list hs (by decide))⟩
  | pullAll h =>
    exact ⟨_, _, .pullAll _, hpath.compileUpdate_whole (by decide) (by decide)
      (Field.updateOperand_list hpath.list hs (by decide) h)⟩
  | popFirst =>
    have hfirst : (g.updateOperand (nativeOperator "pop") none (.int (-1))).Yields
        (.ofInt64 (-1)) := by
      rw [hpop]
      exact .pure _
    exact ⟨_, _, .popFirst rfl, hpath.compileUpdate_whole (by decide) (by decide) hfirst⟩
  | @popLast v j hv hne h =>
    exact ⟨_, _, .popLast (Value.asInt64?_plain_ne hv hne h),
      hpath.compileUpdate_whole (by decide) (by decide) (hpop v ▸ h)⟩

/-- **An operation is its function on the list**, which may be missing as long as it can be
created. -/
theorem list_operation_computes (hpath : LeadsToList c t path fields g element)
    (hstored : "$" ∉ dottedSegments (storagePath (fields.map .field)))
    (h : ListChange element op place v F) :
    ∃ update, (compileUpdate c t [(op ++ "__" ++ positioned path place, v)]).Yields update ∧
      ∀ (doc query : Object) (inserting : Bool) (xs : List Json),
        HoldsArray doc (storagePath (fields.map .field)) xs →
        ∃ doc', doc.apply query update inserting = ⟨doc', none⟩ ∧
          doc'.getPath? (storagePath (fields.map .field)) = some (.array (F xs)) := by
  obtain ⟨operator, body, hentry, hyields⟩ := h.compileUpdate_yields hpath
  refine ⟨_, hyields, fun doc query inserting xs hholds => ?_⟩
  have hoperator : beginsWith "$" operator = true := by cases hentry <;> decide
  obtain ⟨doc', hrun, hread⟩ := hentry.applyOperator hholds inserting
  exact ⟨doc', (Object.apply_single hoperator hstored doc query body inserting).trans hrun, hread⟩

end

/-! ### Labels of crates -/

/-- Lids have a list of labels. -/
def lidType : DocumentType where
  name := "Lid"
  className := "Lid"
  collection := none
  fields := [.list "labels" (.scalar .string)]
  primaryKey := none
  isDynamic := false
  allowsInheritance := false
  superclass := none

/-- Crates have a lid. -/
def crateType : DocumentType where
  name := "Crate"
  className := "Crate"
  collection := some "crates"
  fields := [{ Field.ofKind "id" (.scalar .objectId) with storageName := idKey },
    .ofKind "lid" (.embedded lidType)]
  primaryKey := some "id"
  isDynamic := false
  allowsInheritance := false
  superclass := none

theorem crateType_built : lidType.Built ∧ crateType.Built := by
  let lid : Declaration := .embedded "Lid"
  let crate : Declaration := (Declaration.document "Crate").inCollection "crates"
  exact ⟨⟨lid.withField (.list "labels" (.scalar .string)), rfl⟩,
    ⟨crate.withField (.ofKind "lid" (.embedded lidType)), rfl⟩⟩

/-- The fields on the way to the labels of the lid of a crate. -/
def lidLabels : List Field :=
  [.ofKind "lid" (.embedded lidType), .list "labels" (.scalar .string)]

theorem leadsToList_lidLabels : LeadsToList .empty crateType "lid__labels" lidLabels
    (.list "labels" (.scalar .string)) (.ofKind "labels" (.scalar .string)) := by
  have hsegments : keywordSegments "lid__labels" = ["lid", "labels"] := rfl
  constructor
  · rw [IsNamePath, hsegments]
    decide
  · rw [hsegments]
    decide
  · rw [hsegments]
    exact .step (u := lidType) rfl rfl (.last rfl)
  · rfl
  · exact ⟨_, rfl⟩
  · decide

theorem stores_label (text : String) :
    (Field.ofKind "labels" (.scalar .string)).Stores (.string text) (.string text) :=
  ⟨trivial, rfl, .pure _⟩

/-- Two labels are inserted in front of another one. -/
theorem list_operation_computes_labels : crateType.Built ∧
    LeadsToList .empty crateType "lid__labels" lidLabels
      (.list "labels" (.scalar .string)) (.ofKind "labels" (.scalar .string)) ∧
    "$" ∉ dottedSegments (storagePath (lidLabels.map .field)) ∧
    ∃ update, (compileUpdate .empty crateType [("push" ++ "__" ++ "lid__labels__0",
        .list [.string "top", .string "frail"])]).Yields update ∧
      ∃ doc', Object.apply [("lid", .single "labels" (.array [.string "dry"]))] [] update false =
          ⟨doc', none⟩ ∧
        doc'.getPath? "lid.labels" =
          some (.array [.string "top", .string "frail", .string "dry"]) := by
  have hstored : "$" ∉ dottedSegments (storagePath (lidLabels.map .field)) := by decide
  have hlabels : List.Forall₂ (Field.ofKind "labels" (.scalar .string)).Stores
      [.string "top", .string "frail"] [.string "top", .string "frail"] :=
    .cons (stores_label _) (.cons (stores_label _) .nil)
  obtain ⟨update, hyields, happly⟩ := list_operation_computes leadsToList_lidLabels hstored
    (.pushAllAt (i := "0") (n := 0) rfl rfl hlabels)
  obtain ⟨doc', hrun, hread⟩ := happly [("lid", .single "labels" (.array [.string "dry"]))] [] false
    [.string "dry"] (.present rfl)
  exact ⟨crateType_built.2, leadsToList_lidLabels, hstored, update, hyields, doc', hrun, hread⟩

/-- No list is created below a value that is no document. -/
theorem list_operation_below_number : crateType.Built ∧
    LeadsToList .empty crateType "lid__labels" lidLabels
      (.list "labels" (.scalar .string)) (.ofKind "labels" (.scalar .string)) ∧
    (compileUpdate .empty crateType [("push__lid__labels", .string "dry")]).runFrom .fresh =
      (.ok [("$push", .single "lid.labels" (.string "dry"))], .fresh) ∧
    Object.getPath? [("lid", .ofInt64 5)] "lid.labels" = none ∧
    ∃ cause, Object.apply [("lid", .ofInt64 5)] []
      [("$push", .single "lid.labels" (.string "dry"))] false =
        ⟨[("lid", .ofInt64 5)], some cause⟩ := by
  refine ⟨crateType_built.2, leadsToList_lidLabels, ?_, rfl, _, rfl⟩
  have hkey : "push__lid__labels" = "push" ++ "__" ++ "lid__labels" := rfl
  rw [hkey]
  exact leadsToList_lidLabels.compileUpdate_whole (by decide) (by decide)
    ((stores_label "dry").updateOperand rfl rfl (by decide)) .fresh

end DocumentMapper
