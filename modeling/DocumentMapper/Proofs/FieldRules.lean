import DocumentMapper.Document.Changes
import DocumentMapper.Proofs.Runs

/-!
# What a field asks of a list or a dict

What a field asks of a list or a dict has two sides. Its kind has to be one that takes lists or
dicts at all (`Field.TakesLists`, `Field.TakesDicts`). And some rules look at the parts: the
validator, the shape of positions and geometries, the keys of a dict (`Field.Admits`). Of what is in
a document a field only asks what the validator does.

A list or a dict that its field takes and admits is stored part by part, and no other one is stored.
The parts of a field without elements are stored on their own. A list in a field of geometries
becomes an object with the coordinates.

## Main results

* `Field.gives_encode_list`, `Field.gives_encode_dict`: what is stored is taken and admitted;
* `Field.encode_list_eq`, `Field.encode_dict_eq`: how it is stored then;
* `Place.toJson_list`, `Place.toJson_dict`: the same where there may be no field.
-/

namespace DocumentMapper

open Drawing

/-! ### Part by part -/

/-- Items are stored one after the other, on their own or for a field. -/
theorem plainItems_eq_mapM (items : List Value) : plainItems items = items.mapM Value.plain := by
  induction items with
  | nil => rfl
  | cons v vs ih => rw [plainItems, List.mapM_cons, ih]

theorem encodeItems_eq_mapM (items : List Value) (element : Field) :
    encodeItems items element = items.mapM fun v => v.encode element := by
  induction items with
  | nil => rfl
  | cons v vs ih => rw [encodeItems, List.mapM_cons, ih]

/-- The stored forms of some entries, one after the other. -/
def entriesBy (form : Value → Drawing Json) (entries : List (String × Value)) : Drawing Object :=
  entries.mapM fun e => do return (e.1, ← form e.2)

theorem entriesBy_cons (form : Value → Drawing Json) (k : String) (v : Value)
    (rest : List (String × Value)) :
    entriesBy form ((k, v) :: rest) = do return (k, ← form v) :: (← entriesBy form rest) := by
  simp [entriesBy, List.mapM_cons]

theorem plainEntries_eq_entriesBy (entries : List (String × Value)) :
    plainEntries entries = entriesBy Value.plain entries := by
  induction entries with
  | nil => rfl
  | cons e rest ih => rw [plainEntries, entriesBy_cons, ih]

/-- So are entries for the element of a field, if it has no objections to their keys. -/
theorem encodeEntries_eq_entriesBy {entries : List (String × Value)} (f element : Field)
    (hkeys : ∀ e ∈ entries, Field.isBadKey e.1 = false) :
    encodeEntries entries f element = entriesBy (fun v => v.encode element) entries := by
  induction entries with
  | nil => rfl
  | cons e rest ih =>
    obtain ⟨k, v⟩ := e
    obtain ⟨hkey, hrest⟩ := List.forall_mem_cons.mp hkeys
    rw [encodeEntries, if_neg (by simpa using hkey), entriesBy_cons, ih hrest]

/-! ### Rules -/

/-- The GeoJSON type of the geometries that a field holds. -/
def Field.geometryType? (f : Field) : Option String :=
  match f.kind with
  | .scalar s => s.geoJsonType?
  | _ => none

namespace Field

/-- The rules of a field that look at the parts of a list, a dict or a document. -/
def Admits (f : Field) (v : Value) : Prop :=
  f.validator.bind (·.objection? v) = none ∧
    match v, f.kind with
    | .list items, .scalar s =>
      s = .geoPoint → items.length = 2 ∧ (items.all fun v => v.asDouble?.isSome) = true
    | .dict entries, .scalar s =>
      s.geoJsonType?.isSome →
        Entries.contains entries "type" = true ∧ Entries.contains entries "coordinates" = true
    | .dict entries, .dict _ => ∀ e ∈ entries, isBadKey e.1 = false
    | _, _ => True

/-- Lists are among the values of the field. -/
def TakesLists (f : Field) : Prop :=
  match f.kind with
  | .scalar s => s = .any ∨ s = .geoPoint ∨ s.geoJsonType?.isSome
  | .list _ => True
  | _ => False

/-- Dicts are among the values of the field. -/
def TakesDicts (f : Field) : Prop :=
  match f.kind with
  | .scalar s => s = .any ∨ s.geoJsonType?.isSome
  | .dict _ | .embedded _ => True
  | _ => False

variable {f : Field}

/-- A value that has been checked has met no objection. -/
theorem gives_check {v : Value} {u : Unit} (h : (f.check v).Gives u) :
    f.validator.bind (·.objection? v) = none := by
  unfold check at h
  split at h
  · exact absurd h not_gives_throw
  · assumption

theorem check_eq_pure {v : Value} (h : f.validator.bind (·.objection? v) = none) :
    f.check v = pure () := by
  rw [check, h]

/-- Where anything or a list is accepted, lists are. -/
theorem takesLists_of_opens (h : (f.kind.isAny || f.kind.isList) = true) : f.TakesLists := by
  unfold TakesLists
  cases hkind : f.kind with
  | scalar s => cases s <;> simp_all [Kind.isAny, Kind.isList]
  | list element => trivial
  | _ => simp [hkind, Kind.isAny, Kind.isList] at h

/-- Where anything or a dict is accepted, dicts are. -/
theorem takesDicts_of_opens (h : (f.kind.isAny || f.kind.isDict) = true) : f.TakesDicts := by
  unfold TakesDicts
  cases hkind : f.kind with
  | scalar s => cases s <;> simp_all [Kind.isAny, Kind.isDict]
  | dict element => trivial
  | embedded t => trivial
  | _ => simp [hkind, Kind.isAny, Kind.isDict] at h

/-- A field that takes lists or dicts holds no references. -/
theorem TakesLists.isReference (h : f.TakesLists) : f.kind.isReference = false := by
  unfold TakesLists at h
  cases hkind : f.kind <;> first | rfl | (rw [hkind] at h; exact absurd h id)

theorem TakesDicts.isReference (h : f.TakesDicts) : f.kind.isReference = false := by
  unfold TakesDicts at h
  cases hkind : f.kind <;> first | rfl | (rw [hkind] at h; exact absurd h id)

/-! ### Lists -/

/-- A field that stores a list takes it. -/
theorem gives_encode_list {items : List Value} {j : Json}
    (h : ((Value.list items).encode f).Gives j) : f.TakesLists ∧ f.Admits (.list items) := by
  obtain ⟨u, hcheck, hform⟩ := Gives.of_bind h
  have hchecked := gives_check hcheck
  unfold TakesLists Admits
  cases hkind : f.kind with
  | scalar s =>
    simp only [hkind] at hform
    split at hform
    · rename_i hany
      exact ⟨.inl hany, hchecked, fun hpoint => by simp [hany] at hpoint⟩
    · split at hform
      · rename_i hpoint
        split at hform
        · rename_i hpair
          exact ⟨.inr (.inl hpoint), hchecked, fun _ => hpair⟩
        · exact absurd hform not_gives_throw
      · rename_i hpoint
        split at hform
        · rename_i htype
          exact ⟨.inr (.inr (by simp [htype])), hchecked, fun h => absurd h hpoint⟩
        · exact absurd hform not_gives_throw
  | list element => exact ⟨trivial, hchecked, trivial⟩
  | _ =>
    simp only [hkind] at hform
    exact absurd hform not_gives_throw

/-- **A list that a field takes** is stored item by item, in a field of geometries as the
coordinates. -/
theorem encode_list_eq {items : List Value} (htakes : f.TakesLists)
    (hadmits : f.Admits (.list items)) :
    (Value.list items).encode f = (do
      let js ← items.mapM fun v => (Place.mk f.kind.element? (some v)).toJson
      return match f.geometryType? with
        | some type => geometry type (.array js)
        | none => .array js) := by
  obtain ⟨hchecked, hrules⟩ := hadmits
  unfold TakesLists at htakes
  simp only [Value.encode, check_eq_pure hchecked, pure_bind, geometryType?]
  cases hkind : f.kind with
  | scalar s =>
    simp only [hkind] at htakes hrules ⊢
    have hplain : (items.mapM fun v => (Place.mk (Kind.scalar s).element? (some v)).toJson) =
      plainItems items := (plainItems_eq_mapM items).symm
    rw [hplain]
    split
    · rename_i hany
      rw [hany]
      rfl
    · split
      · rename_i hpoint
        rw [if_pos (hrules hpoint), hpoint]
        rfl
      · obtain ⟨type, htype⟩ :=
          Option.isSome_iff_exists.mp ((htakes.resolve_left ‹_›).resolve_left ‹_›)
        rw [htype]
  | list element =>
    simp only [encodeItems_eq_mapM]
    rfl
  | _ => simp only [hkind] at htakes

/-! ### Dicts -/

/-- The keys of a stored dict can be stored. -/
theorem gives_encodeEntries_keys {entries : List (String × Value)} {element : Field} {o : Object}
    (h : (encodeEntries entries f element).Gives o) : ∀ e ∈ entries, isBadKey e.1 = false := by
  induction entries generalizing o with
  | nil => exact fun _ he => absurd he List.not_mem_nil
  | cons e rest ih =>
    obtain ⟨k, v⟩ := e
    simp only [encodeEntries] at h
    split at h
    · exact absurd h not_gives_throw
    · rename_i hkey
      obtain ⟨_, -, hrest⟩ := Gives.of_bind h
      obtain ⟨o', ho', -⟩ := Gives.of_bind hrest
      exact List.forall_mem_cons.mpr ⟨by simpa using hkey, ih ho'⟩

/-- A field that stores a dict takes it. -/
theorem gives_encode_dict {entries : List (String × Value)} {j : Json}
    (h : ((Value.dict entries).encode f).Gives j) : f.TakesDicts ∧ f.Admits (.dict entries) := by
  obtain ⟨u, hcheck, hform⟩ := Gives.of_bind h
  have hchecked := gives_check hcheck
  unfold TakesDicts Admits
  cases hkind : f.kind with
  | scalar s =>
    simp only [hkind] at hform
    split at hform
    · rename_i hany
      exact ⟨.inl hany, hchecked, fun htype => by simp [hany, Scalar.geoJsonType?] at htype⟩
    · split at hform
      · rename_i htype
        split at hform
        · rename_i hmembers
          exact ⟨.inr htype, hchecked, fun _ => hmembers⟩
        · exact absurd hform not_gives_throw
      · exact absurd hform not_gives_throw
  | dict element =>
    simp only [hkind] at hform
    obtain ⟨o, ho, -⟩ := Gives.of_bind hform
    exact ⟨trivial, hchecked, gives_encodeEntries_keys ho⟩
  | embedded t => exact ⟨trivial, hchecked, trivial⟩
  | _ =>
    simp only [hkind] at hform
    exact absurd hform not_gives_throw

/-- A field that stores a document admits it. -/
theorem admits_document {doc : Document} {j : Json}
    (h : ((Value.document doc).encode f).Gives j) : f.Admits (.document doc) := by
  obtain ⟨_, hcheck, -⟩ := Gives.of_bind h
  exact ⟨gives_check hcheck, trivial⟩

/-- **A dict that a field takes** is stored entry by entry, under the same keys. -/
theorem encode_dict_eq {entries : List (String × Value)} (htakes : f.TakesDicts)
    (hadmits : f.Admits (.dict entries)) :
    (Value.dict entries).encode f = do
      return .object (← entriesBy (fun v => (Place.mk f.kind.element? (some v)).toJson) entries) := by
  obtain ⟨hchecked, hrules⟩ := hadmits
  unfold TakesDicts at htakes
  simp only [Value.encode, check_eq_pure hchecked, pure_bind]
  cases hkind : f.kind with
  | scalar s =>
    simp only [hkind] at htakes hrules ⊢
    rw [plainEntries_eq_entriesBy]
    split
    · rfl
    · have htype := htakes.resolve_left ‹_›
      rw [if_pos htype, if_pos (hrules htype)]
      rfl
  | dict element =>
    simp only [hkind] at hrules
    simp only [encodeEntries_eq_entriesBy f element hrules]
    rfl
  | embedded t =>
    simp only [plainEntries_eq_entriesBy]
    rfl
  | _ => simp only [hkind] at htakes

end Field

/-! ### Places -/

namespace Place

variable {f : Option Field}

/-- The stored form of a list that the field takes, if there is a field. -/
theorem toJson_list {items : List Value} (htakes : ∀ g, f = some g → g.TakesLists)
    (hadmits : ∀ g, f = some g → g.Admits (.list items)) :
    (Place.mk f (some (.list items))).toJson = (do
      let js ← items.mapM fun v => (Place.mk (f.bind (·.kind.element?)) (some v)).toJson
      return match f.bind Field.geometryType? with
        | some type => geometry type (.array js)
        | none => .array js) := by
  cases f with
  | none =>
    simp only [toJson, Value.plain, plainItems_eq_mapM]
    rfl
  | some g => exact Field.encode_list_eq (htakes g rfl) (hadmits g rfl)

/-- The stored form of a dict that the field takes, if there is a field. -/
theorem toJson_dict {entries : List (String × Value)} (htakes : ∀ g, f = some g → g.TakesDicts)
    (hadmits : ∀ g, f = some g → g.Admits (.dict entries)) :
    (Place.mk f (some (.dict entries))).toJson = do
      return .object (← entriesBy
        (fun v => (Place.mk (f.bind (·.kind.element?)) (some v)).toJson) entries) := by
  cases f with
  | none =>
    simp only [toJson, Value.plain, plainEntries_eq_entriesBy]
    rfl
  | some g => exact Field.encode_dict_eq (htakes g rfl) (hadmits g rfl)

/-- What a field stores of a list or a dict it takes. -/
theorem takes_list {items : List Value} {j : Json}
    (h : (Place.mk f (some (.list items))).toJson.Gives j) :
    ∀ g, f = some g → g.TakesLists ∧ g.Admits (.list items) := by
  rintro g rfl
  exact Field.gives_encode_list h

theorem takes_dict {entries : List (String × Value)} {j : Json}
    (h : (Place.mk f (some (.dict entries))).toJson.Gives j) :
    ∀ g, f = some g → g.TakesDicts ∧ g.Admits (.dict entries) := by
  rintro g rfl
  exact Field.gives_encode_dict h

end Place

end DocumentMapper
