import DocumentMapper.Proofs.FailedEntries
import DocumentMapper.Proofs.GroupedValues

/-!
# Positional segments

An update path can name an item of an array by a positional segment, which stands for the first item
that meets the conditions of the filter on the array. All conditions at the top of the filter that
are on the array or on a path below it are put to an item together. It answers one below the array
with what it has there, and one on the array itself with the item as the only value.

A record can meet the filter without such an item: it meets every condition by itself, and by all of
its values together. A single condition that asks one thing is met by an item, though, if the record
meets it: below the array, or through its items, or as a filter for one item.

## Main results

* `Object.positionalPath_eq_ok_iff`, `Object.positionalPath_eq_error_iff`: the position that is
  found, and why there is none;
* `Object.apply_entry`: an update up to one of its entries, and from there on;
* `SuitsItems.exists_first`: where a single condition leads to an item;
* `Object.positional_item`: what a positional segment stands for.
-/

namespace DocumentMapper

open Text

namespace Json

/-- The values behind a value that a path leads to. -/
theorem reach_of_getPath? {front : List String} {j v : Json} (h : j.getPath? front = some v)
    (rest : List String) : j.reach (front ++ rest) = v.reach rest := by
  induction front generalizing j with
  | nil =>
    cases h
    rfl
  | cons segment front ih =>
    obtain ⟨part, hchild, hpath⟩ := Option.bind_eq_some_iff.mp h
    rw [List.cons_append, ← ih hpath]
    cases j with
    | object es =>
      have hget : Entries.get? es segment = some part := hchild
      rw [reach, hget]
    | array items =>
      obtain ⟨i, hposition, hitem⟩ := Option.bind_eq_some_iff.mp hchild
      simp only [reach, hposition, hitem]
    | _ => cases hchild

/-- The values of an item at a path below it, which only a document has. -/
def valuesBelow (item : Json) (rest : String) : List Json :=
  match item with
  | .object element => Object.lookup element rest
  | _ => []

/-- An array fans out over its items. -/
theorem reach_array {segment : String} (hsegment : position? segment = none) {rest : String}
    {more : List String} (hrest : dottedSegments rest = segment :: more) (items : List Json) :
    (array items).reach (dottedSegments rest) = items.flatMap (·.valuesBelow rest) := by
  rw [hrest, reach, hsegment]
  refine congrArg (List.flatMap · items) (funext fun item => ?_)
  cases item with
  | object es => rw [valuesBelow, Object.lookup, hrest, reach]
  | _ => rfl

end Json

theorem Applied.andThen_assoc (a : Applied) (f g : Object → Applied) :
    (a.andThen f).andThen g = a.andThen fun doc => (f doc).andThen g := by
  obtain ⟨doc, failure⟩ := a
  cases failure <;> rfl

/-! ### The answers of an item -/

/-- How an item of the array at `a` answers a condition: one below the array with its values there,
and one on the array itself as the only value. -/
def Json.answerTo (item : Json) (a key : String) (condition : Json) : Except StoreError Bool :=
  match dropStart? (a ++ ".") key with
  | some rest => conditionHolds condition (item.valuesBelow rest) 0
  | none => itemMeetsWhole item condition

/-- Whether a condition at `key` is on the array at `a` or below it. -/
def IsOnArray (a key : String) : Prop :=
  key = a ∨ ∃ rest, key = a ++ "." ++ rest

namespace Object

variable {filter doc : Object} {a path key : String} {condition item : Json} {items : List Json}

/-- A condition stands at the top of a filter, or in a clause of AND. -/
inductive Demands : Object → String → Json → Prop where
  | top {filter : Object} {key : String} {condition : Json} (h : (key, condition) ∈ filter) :
      Demands filter key condition
  | clause {filter clause : Object} {clauses : List Json} {key : String} {condition : Json}
      (hand : ("$and", .array clauses) ∈ filter) (hclause : .object clause ∈ clauses)
      (h : Demands clause key condition) : Demands filter key condition

/-- The conditions of a filter on the array at a path. -/
def Asks (filter : Object) (a key : String) (condition : Json) : Prop :=
  filter.Demands key condition ∧ IsOnArray a key

/-- The answer of an item to all conditions at the top of a filter, those below the array first. -/
def answerOf (filter : Object) (a : String) (item : Json) : Except StoreError Bool := do
  if ← itemMeetsAll item (conditionsBelow filter a) then
    match filter.get? a with
    | some condition => itemMeetsWhole item condition
    | none => return true
  else return false

theorem answerTo_below (item : Json) (a rest : String) (condition : Json) :
    item.answerTo a (a ++ "." ++ rest) condition =
      conditionHolds condition (item.valuesBelow rest) 0 := by
  rw [Json.answerTo, dropStart?_eq_some_iff.mpr rfl]

theorem answerTo_self (item : Json) (a : String) (condition : Json) :
    item.answerTo a a condition = itemMeetsWhole item condition := by
  have hnot : dropStart? (a ++ ".") a = none := by
    rw [Option.eq_none_iff_forall_not_mem]
    intro rest hrest
    have hlength := congrArg (·.toList.length) (dropStart?_eq_some_iff.mp hrest)
    simp at hlength
  rw [Json.answerTo, hnot]

theorem mem_conditionsBelow {rest : String} :
    (rest, condition) ∈ conditionsBelow filter a ↔ (a ++ "." ++ rest, condition) ∈ filter := by
  simp only [conditionsBelow, List.mem_filterMap, Option.map_eq_some_iff, Prod.mk.injEq]
  constructor
  · rintro ⟨⟨key, _⟩, hmem, rest, hrest, rfl, rfl⟩
    rwa [← dropStart?_eq_some_iff.mp hrest]
  · intro hmem
    exact ⟨_, hmem, rest, dropStart?_eq_some_iff.mpr rfl, rfl, rfl⟩

/-- An item is put to the conditions below its array from the first one on. -/
theorem itemMeetsAll_cons (item : Json) (rest : String) (condition : Json)
    (more : List (String × Json)) :
    itemMeetsAll item ((rest, condition) :: more) =
      conditionHolds condition (item.valuesBelow rest) 0 >>= fun holds =>
        if holds then itemMeetsAll item more else return false := rfl

/-- An item meets the conditions below its array when it meets every one. -/
theorem itemMeetsAll_eq_true_iff {below : List (String × Json)} :
    itemMeetsAll item below = .ok true ↔
      ∀ rest condition, (rest, condition) ∈ below →
        conditionHolds condition (item.valuesBelow rest) 0 = .ok true := by
  induction below with
  | nil => exact iff_of_true rfl (by simp)
  | cons e more ih =>
    obtain ⟨rest, condition⟩ := e
    rw [itemMeetsAll_cons, bind_and_eq_ok, ih]
    simp only [List.mem_cons, Prod.mk.injEq, Bool.true_eq_false, and_false, or_false]
    constructor
    · rintro ⟨hfirst, hmore⟩ rest' condition' (⟨rfl, rfl⟩ | hmem)
      · exact hfirst
      · exact hmore _ _ hmem
    · intro h
      exact ⟨h _ _ (.inl ⟨rfl, rfl⟩), fun _ _ hmem => h _ _ (.inr hmem)⟩

/-- An item that does not meet the conditions below its array fails one of them. -/
theorem exists_of_itemMeetsAll_eq_false {below : List (String × Json)}
    (h : itemMeetsAll item below = .ok false) :
    ∃ rest condition, (rest, condition) ∈ below ∧
      conditionHolds condition (item.valuesBelow rest) 0 = .ok false := by
  induction below with
  | nil => cases h
  | cons e more ih =>
    obtain ⟨rest, condition⟩ := e
    rw [itemMeetsAll_cons, bind_and_eq_ok] at h
    rcases h with ⟨-, hmore⟩ | ⟨hfirst, -⟩
    · obtain ⟨rest', condition', hmem, hfalse⟩ := ih hmore
      exact ⟨rest', condition', List.mem_cons_of_mem _ hmem, hfalse⟩
    · exact ⟨rest, condition, List.mem_cons_self, hfirst⟩

/-- An item answers yes when it does so to every condition on its array. -/
theorem answerOf_eq_true_iff (hkeys : (filter.map Prod.fst).Nodup) :
    filter.answerOf a item = .ok true ↔ ∀ key condition, (key, condition) ∈ filter →
      IsOnArray a key → item.answerTo a key condition = .ok true := by
  have hwhole : (match filter.get? a with
      | some condition => itemMeetsWhole item condition
      | none => return true) = .ok true ↔
        ∀ condition, (a, condition) ∈ filter → itemMeetsWhole item condition = .ok true := by
    cases hget : filter.get? a with
    | none =>
      have hno := Entries.get?_eq_none_iff.mp hget
      exact iff_of_true rfl fun condition hmem => absurd (List.mem_map_of_mem hmem) hno
    | some condition =>
      constructor
      · intro h condition' hmem
        have hsame := (Entries.get?_of_mem hkeys hmem).symm.trans hget
        rwa [Option.some.inj hsame]
      · exact fun h => h _ (Entries.mem_of_get? hget)
  rw [answerOf, bind_and_eq_ok, itemMeetsAll_eq_true_iff, hwhole]
  simp only [mem_conditionsBelow, Bool.true_eq_false, and_false, or_false]
  constructor
  · rintro ⟨hbelow, hself⟩ key condition hmem (rfl | ⟨rest, rfl⟩)
    · rw [answerTo_self]
      exact hself _ hmem
    · rw [answerTo_below]
      exact hbelow _ _ hmem
  · intro h
    refine ⟨fun rest condition hmem => ?_, fun condition hmem => ?_⟩
    · rw [← answerTo_below]
      exact h _ _ hmem (.inr ⟨rest, rfl⟩)
    · rw [← answerTo_self item a]
      exact h _ _ hmem (.inl rfl)

/-- An item that answers no does so to one of the conditions on its array. -/
theorem exists_of_answerOf_eq_false (h : filter.answerOf a item = .ok false) :
    ∃ key condition, (key, condition) ∈ filter ∧ IsOnArray a key ∧
      item.answerTo a key condition = .ok false := by
  rw [answerOf, bind_and_eq_ok] at h
  rcases h with ⟨-, hself⟩ | ⟨hbelow, -⟩
  · cases hget : filter.get? a with
    | none =>
      rw [hget] at hself
      cases hself
    | some condition =>
      rw [hget] at hself
      exact ⟨a, condition, Entries.mem_of_get? hget, .inl rfl, (answerTo_self ..).trans hself⟩
  · obtain ⟨rest, condition, hmem, hfalse⟩ := exists_of_itemMeetsAll_eq_false hbelow
    exact ⟨_, condition, mem_conditionsBelow.mp hmem, .inr ⟨rest, rfl⟩,
      (answerTo_below ..).trans hfalse⟩

/-! ### The search -/

/-- The item at a position is the first one that does not answer no, and answers like this. -/
inductive AnswersFirst (ask : Json → Except StoreError Bool) (answer : Except StoreError Bool) :
    List Json → Nat → Prop where
  | here {item : Json} {rest : List Json} (h : ask item = answer) :
      AnswersFirst ask answer (item :: rest) 0
  | later {item : Json} {rest : List Json} {i : Nat} (hno : ask item = .ok false)
      (h : AnswersFirst ask answer rest i) : AnswersFirst ask answer (item :: rest) (i + 1)

theorem answersFirst_iff {ask : Json → Except StoreError Bool} {answer : Except StoreError Bool}
    {i : Nat} : AnswersFirst ask answer items i ↔
      (∃ item, items[i]? = some item ∧ ask item = answer) ∧
        ∀ j < i, ∀ other, items[j]? = some other → ask other = .ok false := by
  constructor
  · intro h
    induction h with
    | here h => exact ⟨⟨_, rfl, h⟩, by simp⟩
    | later hno h ih =>
      refine ⟨ih.1, fun j hj other hother => ?_⟩
      cases j with
      | zero =>
        cases hother
        exact hno
      | succ j => exact ih.2 j (Nat.lt_of_succ_lt_succ hj) other hother
  · rintro ⟨⟨item, hitem, hanswer⟩, hbefore⟩
    induction items generalizing i with
    | nil => cases hitem
    | cons first rest ih =>
      cases i with
      | zero =>
        cases hitem
        exact .here hanswer
      | succ i =>
        refine .later (hbefore 0 (Nat.succ_pos i) first rfl) (ih ?_ hitem)
        exact fun j hj => hbefore (j + 1) (Nat.succ_lt_succ hj)

/-- What stands behind some items that answer no. -/
theorem answersFirst_append {ask : Json → Except StoreError Bool}
    {answer : Except StoreError Bool} {front back : List Json} (h : ask item = answer)
    (hfront : ∀ other ∈ front, ask other = .ok false) :
    AnswersFirst ask answer (front ++ item :: back) front.length := by
  induction front with
  | nil => exact .here h
  | cons first front ih =>
    obtain ⟨hfirst, hrest⟩ := List.forall_mem_cons.mp hfront
    exact .later hfirst (ih hrest)

section Search

variable (hasked : ∃ key condition, (key, condition) ∈ filter ∧ IsOnArray a key)

include hasked

/-- A filter with a condition on the array asks the first item before the others. -/
theorem firstMeeting_cons (k : Nat) (item : Json) (rest : List Json) :
    firstMeeting (conditionsBelow filter a) (filter.get? a) k (item :: rest) =
      filter.answerOf a item >>= fun met => if met then return k else
        firstMeeting (conditionsBelow filter a) (filter.get? a) (k + 1) rest := by
  have hsome : (!(conditionsBelow filter a).isEmpty || (filter.get? a).isSome) = true := by
    obtain ⟨key, condition, hmem, rfl | ⟨rest, rfl⟩⟩ := hasked
    · have hkey := Entries.get?_isSome_iff.mpr (List.mem_map_of_mem hmem)
      rw [hkey, Bool.or_true]
    · have hne := List.ne_nil_of_mem (mem_conditionsBelow.mpr hmem)
      rw [List.isEmpty_eq_false_iff.mpr hne, Bool.not_false, Bool.true_or]
  rw [firstMeeting, answerOf]
  cases itemMeetsAll item (conditionsBelow filter a) with
  | error cause => rfl
  | ok metBelow =>
    simp only [hsome, Bool.and_true]
    cases filter.get? a with
    | none => cases metBelow <;> rfl
    | some condition =>
      cases metBelow
      · rfl
      · cases hwhole : itemMeetsWhole item condition with
        | error cause => simp [bind, Except.bind, hwhole]
        | ok met => cases met <;> simp [bind, Except.bind, hwhole]

/-- **The first item that answers yes is found.** -/
theorem firstMeeting_eq_ok_iff {k n : Nat} :
    firstMeeting (conditionsBelow filter a) (filter.get? a) k items = .ok n ↔
      ∃ i, AnswersFirst (filter.answerOf a) (.ok true) items i ∧ n = k + i := by
  constructor
  · intro h
    induction items generalizing k with
    | nil => cases h
    | cons first rest ih =>
      rw [firstMeeting_cons hasked] at h
      obtain ⟨met, hfirst, hnext⟩ := bind_eq_ok.mp h
      cases met
      · obtain ⟨i, hi, rfl⟩ := ih hnext
        exact ⟨i + 1, .later hfirst hi, by omega⟩
      · cases hnext
        exact ⟨0, .here hfirst, rfl⟩
  · rintro ⟨i, hi, rfl⟩
    induction hi generalizing k with
    | here h =>
      rw [firstMeeting_cons hasked, h]
      rfl
    | @later item rest i hno _ ih =>
      rw [firstMeeting_cons hasked, hno, Nat.add_comm i, ← Nat.add_assoc]
      exact ih

/-- A search that fails has no item that answers yes, or an item that has no answer. -/
theorem firstMeeting_eq_error_iff {k : Nat} {cause : StoreError} :
    firstMeeting (conditionsBelow filter a) (filter.get? a) k items = .error cause ↔
      (cause = .positional ∧ ∀ item ∈ items, filter.answerOf a item = .ok false) ∨
      ∃ i, AnswersFirst (filter.answerOf a) (.error cause) items i := by
  constructor
  · intro h
    induction items generalizing k with
    | nil =>
      cases h
      exact .inl ⟨rfl, by simp⟩
    | cons first rest ih =>
      rw [firstMeeting_cons hasked] at h
      cases hfirst : filter.answerOf a first with
      | error cause' =>
        rw [hfirst] at h
        cases h
        exact .inr ⟨0, .here hfirst⟩
      | ok met =>
        rw [hfirst] at h
        cases met
        · rcases ih h with ⟨hcause, hrest⟩ | ⟨i, hi⟩
          · exact .inl ⟨hcause, List.forall_mem_cons.mpr ⟨hfirst, hrest⟩⟩
          · exact .inr ⟨i + 1, .later hfirst hi⟩
        · cases h
  · rintro (⟨rfl, hno⟩ | ⟨i, hi⟩)
    · induction items generalizing k with
      | nil => rfl
      | cons first rest ih =>
        obtain ⟨hfirst, hrest⟩ := List.forall_mem_cons.mp hno
        rw [firstMeeting_cons hasked, hfirst]
        exact ih hrest
    · induction hi generalizing k with
      | here h =>
        rw [firstMeeting_cons hasked, h]
        rfl
      | later hno _ ih =>
        rw [firstMeeting_cons hasked, hno]
        exact ih

end Search

/-- The positional segment behind the path of an array. -/
theorem positionalPath_eq {rest : List String} (hplain : "$" ∉ dottedSegments a)
    (hpath : dottedSegments path = dottedSegments a ++ "$" :: rest)
    (harray : doc.getPath? a = some (.array items)) :
    positionalPath doc filter path =
      firstMeeting (conditionsBelow filter a) (filter.get? a) 0 items >>= fun i =>
        return dotted (dottedSegments a ++ toString i :: rest) := by
  have hfront : (dottedSegments a ++ "$" :: rest).takeWhile (· ≠ "$") = dottedSegments a := by
    rw [List.takeWhile_append_of_pos fun s hs => by
      simpa using fun h : s = "$" => hplain (h ▸ hs)]
    simp
  have hitems : ((doc.getPath? a).bind Json.asArray?).getD [] = items := by
    rw [harray]
    rfl
  unfold positionalPath
  simp only [hpath, hfront, List.drop_left, dotted_dottedSegments, hitems]

section Position

variable {rest : List String} (harray : doc.getPath? a = some (.array items))
  (hplain : "$" ∉ dottedSegments a)
  (hpath : dottedSegments path = dottedSegments a ++ "$" :: rest)
  (hasked : ∃ key condition, (key, condition) ∈ filter ∧ IsOnArray a key)

include harray hplain hpath hasked

/-- **A positional segment is replaced by the position of the first item that answers yes.** -/
theorem positionalPath_eq_ok_iff {p : String} : positionalPath doc filter path = .ok p ↔
    ∃ i, AnswersFirst (filter.answerOf a) (.ok true) items i ∧
      p = dotted (dottedSegments a ++ toString i :: rest) := by
  rw [positionalPath_eq hplain hpath harray, bind_eq_ok]
  constructor
  · rintro ⟨n, hn, hp⟩
    obtain ⟨i, hi, rfl⟩ := (firstMeeting_eq_ok_iff hasked).mp hn
    rw [Nat.zero_add] at hp
    exact ⟨i, hi, (Except.ok.inj hp).symm⟩
  · rintro ⟨i, hi, rfl⟩
    exact ⟨i, (firstMeeting_eq_ok_iff hasked).mpr ⟨i, hi, (Nat.zero_add i).symm⟩, rfl⟩

/-- **A positional segment that is not replaced** has all items answer no, or has no answer of an
item. -/
theorem positionalPath_eq_error_iff {cause : StoreError} :
    positionalPath doc filter path = .error cause ↔
      (cause = .positional ∧ ∀ item ∈ items, filter.answerOf a item = .ok false) ∨
        ∃ i, AnswersFirst (filter.answerOf a) (.error cause) items i := by
  rw [positionalPath_eq hplain hpath harray, ← firstMeeting_eq_error_iff hasked (k := 0)]
  cases firstMeeting (conditionsBelow filter a) (filter.get? a) 0 items with
  | error cause' =>
    constructor
    · intro h
      cases h
      rfl
    · intro h
      cases h
      rfl
  | ok i => exact iff_of_false nofun nofun

end Position

/-! ### Updates at a path -/

/-- **An update up to one of its entries, and from there on.** -/
theorem apply_entry {op : String} (hop : beginsWith "$" op = true)
    (earlier later done more : Object) (path : String) (operand : Json) (inserting : Bool) :
    doc.apply filter (earlier ++ (op, .object (done ++ (path, operand) :: more)) :: later)
        inserting =
      (applyOperators doc filter inserting (earlier ++ [(op, .object done)]) doc).andThen
        fun now =>
          match positionalPath doc filter path with
          | .error cause => ⟨now, some cause⟩
          | .ok p => (now.applyOperator op p operand inserting).andThen
              (applyOperators doc filter inserting ((op, .object more) :: later)) := by
  have hupdate : (earlier ++ (op, Json.object (done ++ (path, operand) :: more)) :: later).any
      (fun e => beginsWith "$" e.1) = true := by simp [hop]
  rw [apply, if_pos hupdate, applyOperators_append, applyOperators_append, Applied.andThen_assoc]
  refine congrArg (Applied.andThen _) (funext fun now => ?_)
  simp only [applyOperators]
  rw [applyEntries_append, Applied.andThen_assoc, Applied.andThen_assoc]
  refine congrArg (Applied.andThen _) (funext fun now => ?_)
  simp only [Applied.andThen, applyEntries]
  cases positionalPath doc filter path with
  | error cause => rfl
  | ok p => exact Applied.andThen_assoc _ _ _

/-! ### Conditions that an item meets -/

/-- A condition that an item of an array meets wherever the record meets it: one that asks one thing
of the values below the items, or of the items themselves, or a filter for one of them. -/
inductive SuitsItems (a : String) (items : List Json) : String → Json → Prop where
  | below {rest : String} {condition : Json}
      (hrest : ∀ s ∈ (dottedSegments rest).head?, position? s = none) (hne : items ≠ [])
      (h : SingleTest condition) : SuitsItems a items (a ++ "." ++ rest) condition
  | items {condition : Json} (ha : a ∉ connectives) (hne : items ≠ [])
      (hflat : ∀ item ∈ items, item.asArray? = none) (h : ItemTest condition) :
      SuitsItems a items a condition
  | element (ha : a ∉ connectives) (q : Json) : SuitsItems a items a (.single "$elemMatch" q)

/-- The values below the items of an array. -/
theorem lookup_below (harray : doc.getPath? a = some (.array items)) {rest : String}
    (hrest : ∀ s ∈ (dottedSegments rest).head?, position? s = none) :
    doc.lookup (a ++ "." ++ rest) = items.flatMap (·.valuesBelow rest) := by
  cases hsegments : dottedSegments rest with
  | nil => exact absurd hsegments (dottedSegments_ne_nil rest)
  | cons segment more =>
    rw [hsegments] at hrest
    rw [lookup, dottedSegments_append, Json.reach_of_getPath? harray,
      Json.reach_array (hrest segment rfl) hsegments]

/-- The array itself. -/
theorem lookup_array (harray : doc.getPath? a = some (.array items)) :
    doc.lookup a = [.array items] := by
  have hreach := Json.reach_of_getPath? harray []
  rwa [List.append_nil] at hreach

/-- A search among items that says yes has a first one that does. -/
theorem exists_first_of_findAny {test : Json → Except StoreError Bool}
    (h : findAny test items = .ok true) : ∃ i, AnswersFirst test (.ok true) items i := by
  induction items with
  | nil => cases h
  | cons item rest ih =>
    obtain ⟨found, hitem, hnext⟩ := bind_eq_ok.mp h
    cases found
    · obtain ⟨i, hi⟩ := ih hnext
      exact ⟨i + 1, .later hitem hi⟩
    · exact ⟨0, .here hitem⟩

theorem AnswersFirst.mono {ask ask' : Json → Except StoreError Bool} {b : Bool} {i : Nat}
    (h : AnswersFirst ask (.ok b) items i)
    (hask : ∀ item ∈ items, ∀ b, ask item = .ok b → ask' item = .ok b) :
    AnswersFirst ask' (.ok b) items i := by
  induction h with
  | here h => exact .here (hask _ List.mem_cons_self _ h)
  | later hno _ ih =>
    obtain ⟨hitem, hrest⟩ := List.forall_mem_cons.mp hask
    exact .later (hitem _ hno) (ih hrest)

/-- An item answers a filter by itself as it does inside of a condition. -/
theorem itemMeets_of_itemHolds {entries : Object} {b : Bool}
    (h : itemHolds (.object entries) item 1 = .ok b) :
    itemMeets item (.object entries) = .ok b := by
  have htop := (itemHolds_deeper (.object entries) item (Nat.zero_le 1)).answer h
  rw [← htop]
  simp only [itemMeets, itemHolds, conditionHolds]
  split
  · rfl
  · cases item with
    | object element => exact meets_eq element entries
    | _ => rfl

/-- A path below another one is no connective. -/
theorem below_not_mem_connectives (a rest : String) : a ++ "." ++ rest ∉ connectives := by
  intro h
  have hpoint : ∀ op ∈ connectives, '.' ∉ op.toList := by decide
  exact hpoint _ h (by simp)

theorem conditionHolds_of_entryHolds {b : Bool} (hkey : key ∉ connectives)
    (h : entryHolds key condition doc 0 = .ok b) :
    conditionHolds condition (doc.lookup key) 0 = .ok b := by
  rw [entryHolds_of_name hkey] at h
  split at h
  · cases h
  · exact h

/-- **A condition that suits the items is met by a first item**, if the record meets it. -/
theorem SuitsItems.exists_first (h : SuitsItems a items key condition)
    (harray : doc.getPath? a = some (.array items))
    (hmeets : entryHolds key condition doc 0 = .ok true) :
    ∃ i, AnswersFirst (fun item => item.answerTo a key condition) (.ok true) items i := by
  cases h with
  | @below rest _ hrest hne htest =>
    have hholds := conditionHolds_of_entryHolds (below_not_mem_connectives a rest) hmeets
    rw [lookup_below harray hrest] at hholds
    obtain ⟨front, item, back, rfl, hitem, hfront⟩ :=
      (htest.separable 0).exists_first (·.valuesBelow rest) hne hholds
    refine ⟨front.length, answersFirst_append ?_ fun other hother => ?_⟩
    · exact (answerTo_below ..).trans hitem
    · exact (answerTo_below ..).trans (hfront other hother)
  | items ha hne hflat htest =>
    have hholds := conditionHolds_of_entryHolds ha hmeets
    rw [lookup_array harray, htest.conditionHolds_array hne hflat,
      ← List.flatMap_singleton' items] at hholds
    obtain ⟨front, item, back, rfl, hitem, hfront⟩ :=
      (htest.singleTest.separable 0).exists_first (fun item => [item]) hne hholds
    have hanswer (item : Json) :
        item.answerTo a a condition = conditionHolds condition [item] 0 := by
      rw [answerTo_self, itemMeetsWhole, htest.get?_elemMatch]
    refine ⟨front.length, answersFirst_append ?_ fun other hother => ?_⟩
    · exact (hanswer item).trans hitem
    · exact (hanswer other).trans (hfront other hother)
  | element ha q =>
    have hholds := conditionHolds_of_entryHolds ha hmeets
    have hitems : itemsOf [.array items] = items := List.append_nil _
    rw [lookup_array harray, conditionHolds_single (by decide)] at hholds
    simp only [operatorHolds, hitems] at hholds
    obtain ⟨i, hi⟩ := exists_first_of_findAny hholds
    obtain ⟨entries, rfl⟩ : ∃ entries, q = .object entries := by
      obtain ⟨⟨item, -, hitem⟩, -⟩ := answersFirst_iff.mp hi
      cases q with
      | object entries => exact ⟨entries, rfl⟩
      | _ => cases hitem
    refine ⟨i, hi.mono fun item _ b hitem => ?_⟩
    rw [answerTo_self]
    exact itemMeets_of_itemHolds hitem

/-! ### What a positional segment stands for -/

section Asked

variable (hkeys : (filter.map Prod.fst).Nodup)
  (htop : ∀ key condition, filter.Asks a key condition → (key, condition) ∈ filter)

include htop in
theorem asks_iff : filter.Asks a key condition ↔ (key, condition) ∈ filter ∧ IsOnArray a key :=
  ⟨fun h => ⟨htop key condition h, h.2⟩, fun h => ⟨.top h.1, h.2⟩⟩

include hkeys htop in
/-- An item answers yes when it does so to every condition on its array. -/
theorem answerOf_eq_true_iff_asks : filter.answerOf a item = .ok true ↔
    ∀ key condition, filter.Asks a key condition → item.answerTo a key condition = .ok true := by
  rw [answerOf_eq_true_iff hkeys]
  simp only [asks_iff htop, and_imp]

section Single

variable (hsingle : ∀ key' condition', (key', condition') ∈ filter ∧ IsOnArray a key' ↔
  key' = key ∧ condition' = condition)

include hsingle

/-- A single condition on the array itself has none beside it below the array. -/
theorem conditionsBelow_eq_nil (hself : key = a) : conditionsBelow filter a = [] := by
  refine List.eq_nil_iff_forall_not_mem.mpr fun ⟨rest, condition'⟩ hrest => ?_
  have hsame := (hsingle _ _).mp ⟨mem_conditionsBelow.mp hrest, .inr ⟨rest, rfl⟩⟩
  exact absurd (congrArg (·.toList.length) (hsame.1.trans hself)) (by simp)

/-- A single condition below the array is the first one there. -/
theorem conditionsBelow_eq_cons {rest : String} (hbelow : key = a ++ "." ++ rest) :
    ∃ more, conditionsBelow filter a = (rest, condition) :: more := by
  have hmem : (rest, condition) ∈ conditionsBelow filter a :=
    mem_conditionsBelow.mpr (hbelow ▸ ((hsingle key condition).mpr ⟨rfl, rfl⟩).1)
  cases hconditions : conditionsBelow filter a with
  | nil =>
    rw [hconditions] at hmem
    cases hmem
  | cons e more =>
    obtain ⟨rest', condition'⟩ := e
    have hfirst : (rest', condition') ∈ conditionsBelow filter a := by
      rw [hconditions]
      exact List.mem_cons_self
    obtain ⟨hkey, rfl⟩ := (hsingle _ _).mp ⟨mem_conditionsBelow.mp hfirst, .inr ⟨rest', rfl⟩⟩
    obtain rfl : rest' = rest := by simpa using hkey.trans hbelow
    exact ⟨more, rfl⟩

include hkeys in
/-- With a single condition on the array, an item answers like it answers the condition. -/
theorem answerOf_of_single {b : Bool} (h : item.answerTo a key condition = .ok b) :
    filter.answerOf a item = .ok b := by
  obtain ⟨hmem, hon⟩ := (hsingle key condition).mpr ⟨rfl, rfl⟩
  cases b with
  | true =>
    refine (answerOf_eq_true_iff hkeys).mpr fun key' condition' hmem' hon' => ?_
    obtain ⟨rfl, rfl⟩ := (hsingle key' condition').mp ⟨hmem', hon'⟩
    exact h
  | false =>
    rcases hon with rfl | ⟨rest, rfl⟩
    · rw [answerTo_self] at h
      rw [answerOf, conditionsBelow_eq_nil hsingle rfl, Entries.get?_of_mem hkeys hmem]
      exact h
    · obtain ⟨more, hbelow⟩ := conditionsBelow_eq_cons hsingle rfl
      rw [answerTo_below] at h
      rw [answerOf, hbelow, itemMeetsAll_cons, h]
      rfl

end Single

end Asked

/-- **What a positional segment stands for.** It is replaced by the position of the first item that
meets all conditions of the filter on the array, as long as the items before it have an answer,
which is no. Without such an item the update stops there. A single condition that suits the items is
met by one of them wherever the record meets the filter. -/
theorem positional_item {rest : List String} (harray : doc.getPath? a = some (.array items))
    (hplain : "$" ∉ dottedSegments a)
    (hpath : dottedSegments path = dottedSegments a ++ "$" :: rest)
    (hkeys : (filter.map Prod.fst).Nodup) (hasked : ∃ key condition, filter.Asks a key condition)
    (htop : ∀ key condition, filter.Asks a key condition → (key, condition) ∈ filter) :
    (∀ item,
      (filter.answerOf a item = .ok true ↔ ∀ key condition, filter.Asks a key condition →
        item.answerTo a key condition = .ok true) ∧
      (filter.answerOf a item = .ok false → ∃ key condition, filter.Asks a key condition ∧
        item.answerTo a key condition = .ok false)) ∧
    (∀ p, positionalPath doc filter path = .ok p ↔
      ∃ i, AnswersFirst (filter.answerOf a) (.ok true) items i ∧
        p = dotted (dottedSegments a ++ toString i :: rest)) ∧
    (∀ cause, positionalPath doc filter path = .error cause ↔
      (cause = .positional ∧ ∀ item ∈ items, filter.answerOf a item = .ok false) ∨
        ∃ i, AnswersFirst (filter.answerOf a) (.error cause) items i) ∧
    (∀ op, beginsWith "$" op = true → ∀ earlier later done more operand inserting,
      doc.apply filter (earlier ++ (op, .object (done ++ (path, operand) :: more)) :: later)
          inserting =
        (applyOperators doc filter inserting (earlier ++ [(op, .object done)]) doc).andThen
          fun now =>
            match positionalPath doc filter path with
            | .error cause => ⟨now, some cause⟩
            | .ok p => (now.applyOperator op p operand inserting).andThen
                (applyOperators doc filter inserting ((op, .object more) :: later))) ∧
    (doc.meets filter = .ok true → ∀ key condition, SuitsItems a items key condition →
      (∀ key' condition', filter.Asks a key' condition' ↔ key' = key ∧ condition' = condition) →
      ∃ i, AnswersFirst (filter.answerOf a) (.ok true) items i) := by
  have hasks {key condition} : filter.Asks a key condition ↔ _ := asks_iff htop
  have hsome : ∃ key condition, (key, condition) ∈ filter ∧ IsOnArray a key := by
    obtain ⟨key, condition, h⟩ := hasked
    exact ⟨key, condition, hasks.mp h⟩
  refine ⟨fun item => ⟨answerOf_eq_true_iff_asks hkeys htop, fun hno => ?_⟩,
    fun p => positionalPath_eq_ok_iff harray hplain hpath hsome,
    fun cause => positionalPath_eq_error_iff harray hplain hpath hsome,
    fun op hop earlier later done more operand inserting =>
      apply_entry hop earlier later done more path operand inserting,
    fun hmeets key condition hsuits hsingle => ?_⟩
  · obtain ⟨key, condition, hmem, hon, hfalse⟩ := exists_of_answerOf_eq_false hno
    exact ⟨key, condition, hasks.mpr ⟨hmem, hon⟩, hfalse⟩
  · have hentries := (meets_eq doc filter).symm.trans hmeets
    have hentry := entriesHold_eq_true_iff.mp hentries _
      (hasks.mp ((hsingle key condition).mpr ⟨rfl, rfl⟩)).1
    obtain ⟨i, hi⟩ := hsuits.exists_first harray hentry
    have hsame := fun key' condition' => hasks.symm.trans (hsingle key' condition')
    exact ⟨i, hi.mono fun item _ b hitem => answerOf_of_single hkeys hsame hitem⟩

/-- A basket with two lines. -/
def linedBasket : Object :=
  [("lines", .array [.object [("sku", .string "a"), ("count", .ofInt64 1)],
    .object [("sku", .string "b"), ("count", .ofInt64 2)]])]

/-- A filter for a line. -/
def lineFilter : Object := [("lines.sku", .string "b")]

theorem lineFilter_asks_iff {key : String} {condition : Json} :
    lineFilter.Asks "lines" key condition ↔ key = "lines.sku" ∧ condition = .string "b" := by
  constructor
  · rintro ⟨h, -⟩
    cases h with
    | top h => simpa [lineFilter] using h
    | clause hand _ _ => simp [lineFilter] at hand
  · rintro ⟨rfl, rfl⟩
    exact ⟨.top List.mem_cons_self, .inr ⟨"sku", rfl⟩⟩

theorem positional_item_basket :
    linedBasket.meets lineFilter = .ok true ∧
    (∃ i : Nat, positionalPath linedBasket lineFilter "lines.$.count" =
      .ok (dotted ["lines", toString i, "count"])) ∧
    linedBasket.apply lineFilter [("$set", .object [("lines.$.count", .ofInt64 9)])] false =
      ⟨[("lines", .array [.object [("sku", .string "a"), ("count", .ofInt64 1)],
        .object [("sku", .string "b"), ("count", .ofInt64 9)]])], none⟩ := by
  have hmeets : linedBasket.meets lineFilter = .ok true := rfl
  have harray : linedBasket.getPath? "lines" = some (.array _) := rfl
  have hcount : dottedSegments "lines.$.count" = dottedSegments "lines" ++ "$" :: ["count"] := by
    decide
  have hkeys : (lineFilter.map Prod.fst).Nodup := by decide
  obtain ⟨-, hpath, -, -, hfirst⟩ := positional_item harray (by decide) hcount hkeys
    ⟨_, _, lineFilter_asks_iff.mpr ⟨rfl, rfl⟩⟩ fun key condition h => by
      obtain ⟨rfl, rfl⟩ := lineFilter_asks_iff.mp h
      exact List.mem_cons_self
  have hsuits : SuitsItems "lines" [.object [("sku", .string "a"), ("count", .ofInt64 1)],
      .object [("sku", .string "b"), ("count", .ofInt64 2)]] ("lines" ++ "." ++ "sku")
      (.string "b") :=
    .below (by decide) (List.cons_ne_nil _ _) (.value (Json.not_isOperators rfl))
  obtain ⟨i, hi⟩ := hfirst hmeets _ _ hsuits fun _ _ => lineFilter_asks_iff
  exact ⟨hmeets, ⟨i, (hpath _).mpr ⟨i, hi, rfl⟩⟩, rfl⟩

/-- Two conditions that are met by different lines, and one on the number of lines beside one on a
line, are met by the basket and by no line, although the first line meets one of them. -/
theorem conditions_met_by_no_line :
    Json.answerTo (.object [("sku", .string "a"), ("count", .ofInt64 1)]) "lines" "lines.sku"
      (.string "a") = .ok true ∧
    linedBasket.meets [("lines.sku", .string "a"), ("lines.count", .ofInt64 2)] = .ok true ∧
    linedBasket.apply [("lines.sku", .string "a"), ("lines.count", .ofInt64 2)]
        [("$set", .object [("lines.$.count", .ofInt64 9)])] false =
      ⟨linedBasket, some .positional⟩ ∧
    linedBasket.meets [("lines", .single "$size" (.ofInt64 2)), ("lines.sku", .string "a")] =
      .ok true ∧
    linedBasket.apply [("lines", .single "$size" (.ofInt64 2)), ("lines.sku", .string "a")]
        [("$set", .object [("lines.$.count", .ofInt64 9)])] false =
      ⟨linedBasket, some .positional⟩ :=
  ⟨rfl, rfl, rfl, rfl, rfl⟩

end Object

end DocumentMapper
