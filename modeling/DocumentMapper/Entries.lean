/-!
# Lists of entries

A list of key and value pairs read as a finite map, in the order in which an answer shows it.
Stored objects keep the order of insertion; the fields of a document are sorted by key. The first
entry of a key is the one that counts, and every operation here keeps keys distinct.

## Main definitions

* `Entries.get?` reads a key;
* `Entries.insert` writes a key: in place where it exists, else at the end;
* `Entries.erase` drops a key and keeps the order of the others;
* `Entries.swapErase` drops a key and moves the last entry into its place;
* `Entries.insertSorted` writes a key into a sorted list.
-/

namespace DocumentMapper

/-- Key and value pairs in order. -/
abbrev Entries (α : Type) := List (String × α)

namespace Entries

variable {α β : Type}

/-- The value of a key. -/
def get? : Entries α → String → Option α
  | [], _ => none
  | (k, v) :: rest, key => if k = key then some v else get? rest key

/-- Whether the key has a value. -/
def contains (es : Entries α) (key : String) : Bool :=
  (es.get? key).isSome

/-- The keys in order. -/
def keys (es : Entries α) : List String :=
  es.map Prod.fst

/-- The entries with `value` under `key`, in place of an old value or else last. -/
def insert : Entries α → String → α → Entries α
  | [], key, value => [(key, value)]
  | (k, v) :: rest, key, value =>
    if k = key then (k, value) :: rest else (k, v) :: insert rest key value

/-- Writes several entries, one after the other. -/
def insertAll (es : Entries α) (more : Entries α) : Entries α :=
  more.foldl (fun acc e => acc.insert e.1 e.2) es

/-- The entries without the key; the others keep their order. -/
def erase : Entries α → String → Entries α
  | [], _ => []
  | (k, v) :: rest, key => if k = key then rest else (k, v) :: erase rest key

/-- The entries without the key; the last entry takes its place. -/
def swapErase : Entries α → String → Entries α
  | [], _ => []
  | (k, v) :: rest, key =>
    if k = key then
      match rest.getLast? with
      | none => []
      | some last => last :: rest.dropLast
    else (k, v) :: swapErase rest key

/-- The sorted entries with `value` under `key`, in place of an old value or else between its
neighbours. -/
def insertSorted : Entries α → String → α → Entries α
  | [], key, value => [(key, value)]
  | (k, v) :: rest, key, value =>
    if k = key then (k, value) :: rest
    else if key < k then (key, value) :: (k, v) :: rest
    else (k, v) :: insertSorted rest key value

/-- Some pairs as sorted entries; a later pair replaces an earlier one of the same key. -/
def ofPairs (pairs : List (String × α)) : Entries α :=
  pairs.foldl (fun acc e => acc.insertSorted e.1 e.2) []

/-- The entries with the value of one key changed, if it has one. -/
def modify (es : Entries α) (key : String) (f : α → α) : Entries α :=
  es.map fun e => if e.1 = key then (e.1, f e.2) else e

@[simp] theorem get?_nil (key : String) : get? ([] : Entries α) key = none := rfl

theorem get?_cons (k : String) (v : α) (rest : Entries α) (key : String) :
    get? ((k, v) :: rest) key = if k = key then some v else get? rest key := rfl

/-- What was written is read back. -/
@[simp] theorem get?_insert_self (es : Entries α) (key : String) (value : α) :
    (es.insert key value).get? key = some value := by
  induction es with
  | nil => simp [insert, get?]
  | cons e rest ih =>
    obtain ⟨k, v⟩ := e
    by_cases h : k = key <;> simp [insert, get?, h, ih]

/-- Writing one key leaves every other key alone. -/
theorem get?_insert_of_ne (es : Entries α) {key other : String} (value : α) (h : key ≠ other) :
    (es.insert key value).get? other = es.get? other := by
  induction es with
  | nil => simp [insert, get?, h]
  | cons e rest ih =>
    obtain ⟨k, v⟩ := e
    by_cases hk : k = key
    · subst hk
      simp [insert, get?, h]
    · by_cases ho : k = other
      · subst ho
        simp [insert, get?, hk]
      · simp [insert, get?, hk, ho, ih]

/-- What was written into sorted entries is read back. -/
@[simp] theorem get?_insertSorted_self (es : Entries α) (key : String) (value : α) :
    (es.insertSorted key value).get? key = some value := by
  induction es with
  | nil => simp [insertSorted, get?]
  | cons e rest ih =>
    obtain ⟨k, v⟩ := e
    by_cases h : k = key
    · simp [insertSorted, get?, h]
    · by_cases hlt : key < k <;> simp [insertSorted, get?, h, hlt, ih]

/-- Writing one key into sorted entries leaves every other key alone. -/
theorem get?_insertSorted_of_ne (es : Entries α) {key other : String} (value : α)
    (h : key ≠ other) : (es.insertSorted key value).get? other = es.get? other := by
  induction es with
  | nil => simp [insertSorted, get?, h]
  | cons e rest ih =>
    obtain ⟨k, v⟩ := e
    by_cases hk : k = key
    · subst hk
      simp [insertSorted, get?, h]
    · by_cases hlt : key < k
      · simp [insertSorted, get?, hk, hlt, h]
      · by_cases ho : k = other
        · subst ho
          simp [insertSorted, get?, hk, hlt]
        · simp [insertSorted, get?, hk, hlt, ho, ih]

end Entries

end DocumentMapper
