import Mathlib.Data.List.Nodup
import DocumentMapper.Schema.Declaration

/-!
# What building a type guarantees

A type that a declaration was built into has distinct attribute names and distinct storage names.
If it is stored by itself, it has a primary key, which is one of its fields and is stored as `_id`.

## Main results

* `DocumentType.Built.primaryKeyField?`: a type with a collection has a key field stored as `_id`;
* `DocumentType.Built.names_nodup`, `DocumentType.Built.storageNames_nodup`: no name is used twice;
* `DocumentType.Built.field?_of_mem`, `DocumentType.Built.storedField?_of_mem`: every field is found
  under both of its names.
-/

namespace DocumentMapper

/-- A type that some declaration was built into. -/
def DocumentType.Built (t : DocumentType) : Prop :=
  ∃ decl : Declaration, decl.build = .ok t

namespace Declaration

/-- Fields that pass the check have new and distinct names and storage names. -/
theorem checkNames_eq_ok {type : String} {names stored : List String} {fs : List Field}
    (h : checkNames type names stored fs = .ok ()) :
    (fs.map Field.name).Nodup ∧ (fs.map Field.storageName).Nodup ∧
      (∀ f ∈ fs, f.name ∉ names) ∧ ∀ f ∈ fs, f.storageName ∉ stored := by
  induction fs generalizing names stored with
  | nil => simp
  | cons f fs ih =>
    simp only [checkNames] at h
    split at h
    · cases h
    · rename_i hname
      split at h
      · cases h
      · rename_i hstored
        obtain ⟨hnames, hstoreds, hnew, hnewStored⟩ := ih h
        simp only [List.contains_eq_mem, decide_eq_true_eq] at hname hstored
        simp only [List.mem_cons, not_or] at hnew hnewStored
        refine ⟨?_, ?_, ?_, ?_⟩
        · simp only [List.map_cons, List.nodup_cons, List.mem_map, not_exists, not_and]
          exact ⟨fun g hg he => (hnew g hg).1 he, hnames⟩
        · simp only [List.map_cons, List.nodup_cons, List.mem_map, not_exists, not_and]
          exact ⟨fun g hg he => (hnewStored g hg).1 he, hstoreds⟩
        · simpa using ⟨hname, fun g hg => (hnew g hg).2⟩
        · simpa using ⟨hstored, fun g hg => (hnewStored g hg).2⟩

/-- The field that is stored as `_id` can be found under its name. -/
theorem find?_storeAsId {name : String} {fs : List Field}
    (h : fs.any (fun f => f.name == name) = true) :
    ∃ f, (storeAsId name fs).find? (fun f => f.name == name) = some f ∧ f.storageName = idKey := by
  induction fs with
  | nil => simp at h
  | cons f fs ih =>
    by_cases hf : f.name = name
    · exact ⟨{ f with storageName := idKey }, by simp [storeAsId, hf], rfl⟩
    · obtain ⟨g, hg, hs⟩ := ih (by simpa [hf] using h)
      exact ⟨g, by simp [storeAsId, hf, hg], hs⟩

/-- **What settling the key does**: the key is found among the declared fields or in front of them,
and is stored as `_id`. -/
theorem fields_of_resolveKey {d : Declaration} {key : String} {fs : List Field}
    (h : d.resolveKey = .ok (key, fs)) :
    ∃ candidates, d.fields ⊆ candidates ∧ candidates.any (fun f => f.name == key) = true ∧
      fs = storeAsId key candidates := by
  have among : ∀ (key' : String) (candidates : List Field),
      (if candidates.any (fun f => f.name == key') then pure (key', storeAsId key' candidates)
        else throw (.keyNotField key' d.name) : Except UsageError (String × List Field))
        = .ok (key, fs) →
      candidates.any (fun f => f.name == key) = true ∧ fs = storeAsId key candidates := by
    intro key' candidates hok
    split at hok
    · rename_i hany
      cases hok
      exact ⟨hany, rfl⟩
    · cases hok
  unfold resolveKey at h
  cases hkey : d.primaryKey with
  | some key' =>
    rw [hkey] at h
    exact ⟨d.fields, List.Subset.refl _, among key' d.fields h⟩
  | none =>
    rw [hkey] at h
    simp only at h
    split at h
    · cases h
    · exact ⟨_, List.subset_cons_self _ _,
        among "id" (.ofKind "id" (.scalar .objectId) :: d.fields) h⟩

/-- The key of a stored type is one of its fields and is stored as `_id`. -/
theorem resolveKey_eq_ok {d : Declaration} {key : String} {fs : List Field}
    (h : d.resolveKey = .ok (key, fs)) :
    ∃ f, fs.find? (fun f => f.name == key) = some f ∧ f.storageName = idKey := by
  obtain ⟨candidates, -, hany, rfl⟩ := fields_of_resolveKey h
  exact find?_storeAsId hany

/-- What building does. The names of the completed fields are distinct. An embedded type is left as
it was declared, without collection and key; any other type has a collection that is not empty, and
its key is found among its fields. -/
theorem build_cases {d : Declaration} {t : DocumentType} (h : d.build = .ok t) :
    checkNames t.name [] [] t.fields = .ok () ∧
      ((d.isEmbedded = true ∧ t.collection = none ∧ t.primaryKey = none ∧ t.fields = d.fields) ∨
        (d.isEmbedded = false ∧ ∃ collection key, t.collection = some collection ∧
          collection.isEmpty = false ∧ t.primaryKey = some key ∧
          d.resolveKey = .ok (key, t.fields))) := by
  -- The three parts of the type are found first and checked together afterwards.
  have checked : ∀ (collection key : Option String) (fs : List Field),
      (do
        checkNames d.name [] [] fs
        return ⟨d.name, d.className, collection, fs, key, d.isDynamic, d.allowsInheritance,
          d.superclass⟩ : Except UsageError DocumentType) = .ok t →
      checkNames t.name [] [] t.fields = .ok () ∧ t.collection = collection ∧
        t.primaryKey = key ∧ t.fields = fs := by
    intro collection key fs hok
    cases hnames : checkNames d.name [] [] fs with
    | error cause =>
      rw [hnames] at hok
      cases hok
    | ok u =>
      rw [hnames] at hok
      cases hok
      exact ⟨hnames, rfl, rfl, rfl⟩
  unfold build at h
  split at h
  · rename_i hembedded
    split at h
    · cases h
    · obtain ⟨hnames, hc, hk, hfs⟩ := checked none none d.fields h
      exact ⟨hnames, .inl ⟨hembedded, hc, hk, hfs⟩⟩
  · rename_i hstored
    simp only at h
    split at h
    · cases h
    · rename_i hcollection
      cases hkey : d.resolveKey with
      | error cause =>
        rw [hkey] at h
        cases h
      | ok found =>
        obtain ⟨key, fs⟩ := found
        rw [hkey] at h
        obtain ⟨hnames, hc, hk, hfs⟩ := checked (some _) (some key) fs h
        exact ⟨hnames, .inr ⟨by simpa using hstored, _, key, hc, by simpa using hcollection, hk,
          by rw [hfs]⟩⟩

/-- A built type has no collection and no key, or both. Its names are distinct. -/
theorem build_eq_ok {d : Declaration} {t : DocumentType} (h : d.build = .ok t) :
    checkNames t.name [] [] t.fields = .ok () ∧
      ((t.collection = none ∧ t.primaryKey = none) ∨
        ∃ collection key f, t.collection = some collection ∧ t.primaryKey = some key ∧
          t.fields.find? (fun f => f.name == key) = some f ∧ f.storageName = idKey) := by
  obtain ⟨hnames, ⟨-, hc, hk, -⟩ | ⟨-, collection, key, hc, -, hk, hkey⟩⟩ := build_cases h
  · exact ⟨hnames, .inl ⟨hc, hk⟩⟩
  · obtain ⟨f, hf, hs⟩ := resolveKey_eq_ok hkey
    exact ⟨hnames, .inr ⟨collection, key, f, hc, hk, hf, hs⟩⟩

end Declaration

/-! ### Finding fields -/

/-- A field is found under a name that no other field has. -/
theorem find?_of_nodup {fields : List Field} {name : Field → String}
    (h : (fields.map name).Nodup) {f : Field} (hf : f ∈ fields) :
    (fields.find? fun g => name g == name f) = some f := by
  cases hfound : fields.find? fun g => name g == name f with
  | none => simpa using List.find?_eq_none.mp hfound f hf
  | some g =>
    have hname : name g = name f := by simpa using List.find?_some hfound
    rw [List.inj_on_of_nodup_map h (List.mem_of_find?_eq_some hfound) hf hname]

theorem DocumentType.mem_of_storedField? {t : DocumentType} {f : Field} {key : String}
    (h : t.storedField? key = some f) : f ∈ t.fields ∧ f.storageName = key :=
  ⟨List.mem_of_find?_eq_some h, by simpa using List.find?_some h⟩

namespace DocumentType.Built

variable {t : DocumentType}

/-- No attribute name is used twice. -/
theorem names_nodup (h : t.Built) : (t.fields.map Field.name).Nodup := by
  obtain ⟨decl, hd⟩ := h
  exact (Declaration.checkNames_eq_ok (Declaration.build_eq_ok hd).1).1

/-- No storage name is used twice. -/
theorem storageNames_nodup (h : t.Built) : (t.fields.map Field.storageName).Nodup := by
  obtain ⟨decl, hd⟩ := h
  exact (Declaration.checkNames_eq_ok (Declaration.build_eq_ok hd).1).2.1

/-- A type with a collection has a key, which is a field stored as `_id`. -/
theorem primaryKeyField? {collection : String} (h : t.Built) (hc : t.collection = some collection) :
    ∃ key f, t.primaryKey = some key ∧ t.primaryKeyField? = some f ∧ f.name = key ∧
      f.storageName = idKey := by
  obtain ⟨decl, hd⟩ := h
  rcases (Declaration.build_eq_ok hd).2 with ⟨hnone, -⟩ | ⟨-, key, f, -, hk, hf, hs⟩
  · rw [hc] at hnone
    cases hnone
  · refine ⟨key, f, hk, ?_, ?_, hs⟩
    · simp only [DocumentType.primaryKeyField?, hk, Option.bind_some, DocumentType.field?]
      exact hf
    · simpa using List.find?_some hf

theorem field?_of_mem (h : t.Built) {f : Field} (hf : f ∈ t.fields) : t.field? f.name = some f :=
  find?_of_nodup h.names_nodup hf

theorem storedField?_of_mem (h : t.Built) {f : Field} (hf : f ∈ t.fields) :
    t.storedField? f.storageName = some f :=
  find?_of_nodup h.storageNames_nodup hf

end DocumentType.Built

end DocumentMapper
