import DocumentMapper.Proofs.LinkedForms
import DocumentMapper.Proofs.ResolvedReferences
import DocumentMapper.Proofs.WrittenValues

/-!
# What resolving references does not change

Resolving puts documents in place of references and leaves everything else alone. So the changed
paths of a document stay the same, and so does what is stored for an attribute, as long as its
references stand where fields declare references to documents of a type.

For this the key of each document that is fetched has to be stored as the id of its record again,
and the references in the key have to stand where they are declared, too: a key is stored like any
other attribute, after documents were put in place of its own references.

## Main results

* `ResolvesTo.keyJson_shown`: a document that is shown for a key is stored by the id of the key;
* `resolveDocuments_sameInStorage`: what stays the same in every document.
-/

namespace DocumentMapper

open Drawing

variable {c : Catalog} {hops : Nat} {docs docs' : List Document} {store : Store}

/-! ### Documents as values -/

theorem referencesOfItems_documents (docs : List Document) :
    referencesOfItems (docs.map .document) = docs.flatMap (·.references) := by
  induction docs with
  | nil => rfl
  | cons d rest ih => rw [List.map_cons, referencesOfItems, ih, List.flatMap_cons, Value.references]

/-- Documents are linked like values that they are embedded in. -/
theorem attachItems_documents (link : Link) (docs : List Document) :
    attachItems c link (docs.map .document) =
      List.map .document <$> docs.mapM fun doc => doc.attach c link := by
  induction docs with
  | nil => rfl
  | cons d rest ih =>
    simp only [List.map_cons, attachItems, Value.attach, ih, List.mapM_cons, map_eq_pure_bind,
      bind_assoc, pure_bind]

/-- **Documents are resolved like values.** -/
theorem map_resolveDocuments (c : Catalog) (hops : Nat) (docs : List Document) (store : Store) :
    (resolveValues c hops (docs.map .document) store).1 =
      (resolveDocuments c hops docs store).1.map (List.map .document) := by
  unfold resolveValues resolveDocuments
  rw [referencesOfItems_documents]
  split
  · rfl
  · cases hfetch : (Resolution.fetchFrom c hops (docs.flatMap (·.references)) store).1 with
    | error cause => simp only [hfetch]; rfl
    | ok state => simp only [hfetch, attachItems_documents]; rfl

/-- What resolving documents fetches and what it puts in place. -/
theorem linkedBy_of_resolveDocuments (hhops : 0 < hops)
    (h : (resolveDocuments c hops docs store).1 = .ok docs') :
    ∃ state final,
      (Resolution.fetchFrom c hops (docs.flatMap (·.references)) store).1 = .ok state ∧
      ResolvesTo c store hops (docs.flatMap (·.references)) state.read (Linking.shown final) ∧
      docs' = docs.map (Document.linkedBy c final.shown) := by
  have hvalues := map_resolveDocuments c hops docs store
  rw [h] at hvalues
  obtain ⟨state, final, hfetch, hresolves, hout⟩ := resolveValues_eq_ok hhops hvalues
  rw [referencesOfItems_documents] at hfetch hresolves
  refine ⟨state, final, hfetch, hresolves, ?_⟩
  have hinjective : Function.Injective Value.document := fun _ _ => Value.document.inj
  refine List.map_injective_iff.mpr hinjective ?_
  rw [hout, List.map_map, List.map_map]
  rfl

/-! ### Keys -/

/-- The key of a loaded document is stored as the id of its record, which is not null, and the
references in the key stand where they are declared. -/
structure Document.KeepsKey (d : Document) : Prop where
  stored : ∃ raw id, d.raw = some raw ∧ Entries.get? raw idKey = some id ∧ id.isNull = false ∧
    d.keyJson.Yields id
  declared : ∀ f v, d.type.primaryKeyField? = some f → Entries.get? d.values f.name = some v →
    DocumentMapper.ReferencesDeclared v f

theorem Catalog.text_of_objectKey? {r : Reference} {key : ObjectKey}
    (h : c.objectKey? r = some key) : key.2 = r.id.text := by
  unfold objectKey? at h
  split at h
  · obtain ⟨collection, -, rfl⟩ := Option.map_eq_some_iff.mp h
    rfl
  · rw [← Option.some.inj h]

/-- The record of a key has its id. -/
theorem Store.id_of_recordAt? {key : ObjectKey} {raw : Object}
    (h : store.recordAt? key = some raw) : ∃ id, raw.get? idKey = some id ∧ id.text = key.2 := by
  have htext : raw.hasIdText key.2 = true :=
    List.find?_some (p := fun doc : Object => doc.hasIdText key.2) h
  unfold Object.hasIdText at htext
  cases hid : raw.get? idKey with
  | none => simp [hid] at htext
  | some id => exact ⟨id, rfl, by simpa [hid] using htext⟩

namespace ResolvesTo

variable {start : List Reference} {read shown : ObjectKey → Option Document}

/-- What is shown for a key is the document that was read for it, with documents that are shown in
place of some of its references. -/
theorem linkedBy_of_shown (h : ResolvesTo c store hops start read shown) {key : ObjectKey}
    {doc : Document} (hdoc : shown key = some doc) :
    ∃ before g, read key = some before ∧ doc = before.linkedBy c g ∧
      ∀ k found, g k = some found → shown k = some found := by
  obtain ⟨before, hbefore⟩ :=
    Option.isSome_iff_exists.mp ((h.shown_isSome key).mp (by rw [hdoc]; rfl))
  obtain ⟨⟨n, hn, hhop⟩, -⟩ := (h.read_isSome key).mp (by rw [hbefore]; rfl)
  obtain ⟨m, hm, hlevel⟩ := hhop.exists_level
  rcases Nat.lt_or_eq_of_le (Nat.le_trans hm hn) with hfurther | rfl
  · obtain ⟨skipped, -, hshown⟩ := h.further key before m hbefore hlevel hfurther
    refine ⟨before, _, hbefore, Option.some.inj (hdoc.symm.trans hshown), fun k found hk => ?_⟩
    by_cases hskip : k ∈ skipped
    · simp [hskip] at hk
    · simpa [hskip] using hk
  · have hlast := h.last key before hbefore hlevel
    refine ⟨before, fun _ => none, hbefore, ?_, fun _ _ h => nomatch h⟩
    rw [before.linkedBy_nowhere]
    exact Option.some.inj (hdoc.symm.trans hlast)

/-- **A document that is shown for a key is stored by the id of the key.** -/
theorem keyJson_shown (h : ResolvesTo c store hops start read shown)
    (hread : ∀ key doc, read key = some doc → doc.KeepsKey) {key : ObjectKey} {doc : Document}
    (hdoc : shown key = some doc) :
    ∃ id, doc.keyJson.Yields id ∧ id.isNull = false ∧ id.text = key.2 := by
  -- The documents in a completed document are smaller, and their keys are known before it.
  induction hsize : sizeOf doc using Nat.strongRecOn generalizing key doc with
  | ind size ih =>
    obtain ⟨before, g, hbefore, rfl, hg⟩ := h.linkedBy_of_shown hdoc
    obtain ⟨raw, r, text, declared, hrecord, -, -, rfl⟩ := h.readAs key before hbefore
    obtain ⟨id, hid, htext⟩ := Store.id_of_recordAt? hrecord
    have hkeeps := hread key _ hbefore
    obtain ⟨raw', id', hraw, hid', hnull, hyields⟩ := hkeeps.stored
    obtain rfl : raw = raw' := Option.some.inj hraw
    obtain rfl : id = id' := Option.some.inj (hid.symm.trans hid')
    refine ⟨id, ?_, hnull, htext⟩
    rw [Document.keyJson_linkedBy hkeeps.declared]
    · exact hyields
    · intro r hr k found hk hfound
      have hsmaller := Document.sizeOf_lt_linkedBy hk hfound _ hr
      obtain ⟨id, hyields, hnull, htext⟩ := ih _ (hsize ▸ hsmaller) (hg k found hfound) rfl
      obtain rfl : id = r.id := Json.text_injective (htext.trans (Catalog.text_of_objectKey? hk))
      exact ⟨hyields, hnull⟩

/-- What is shown for references has their ids as keys. -/
theorem keptKeys (h : ResolvesTo c store hops start read shown)
    (hread : ∀ key doc, read key = some doc → doc.KeepsKey) (references : List Reference) :
    KeptKeys c shown references := by
  intro r _ key doc hkey hdoc
  obtain ⟨id, hyields, hnull, htext⟩ := h.keyJson_shown hread hdoc
  obtain rfl : id = r.id := Json.text_injective (htext.trans (Catalog.text_of_objectKey? hkey))
  exact ⟨hyields, hnull⟩

end ResolvesTo

/-! ### What stays the same -/

/-- A document is stored alike as before: each attribute whose references stand where they are
declared, and the whole of it if all do. -/
structure SameInStorage (before after : Document) : Prop where
  attributes : ∀ name, (Entries.get? after.values name).isSome =
    (Entries.get? before.values name).isSome
  encode : ∀ name v v', Entries.get? before.values name = some v →
    Entries.get? after.values name = some v' → ∀ f, ReferencesDeclared v f →
    v'.encode f = v.encode f
  toStorage : before.ReferencesDeclared → after.toStorage = before.toStorage

theorem SameInStorage.refl (d : Document) : SameInStorage d d where
  attributes _ := rfl
  encode _ _ _ hv hv' _ _ := by rw [Option.some.inj (hv.symm.trans hv')]
  toStorage _ := rfl

/-- A document in which references are replaced by documents with their ids is stored alike. -/
theorem Document.sameInStorage_linkedBy {g : ObjectKey → Option Document} (d : Document)
    (hkeys : KeptKeys c g d.references) : SameInStorage d (d.linkedBy c g) := by
  have hvalues : (d.linkedBy c g).values = linkedEntries c g d.values := by cases d; rfl
  have hreferences : d.references = referencesOfEntries d.values := by cases d; rfl
  refine ⟨fun name => ?_, fun name v v' hv hv' f hdeclared => ?_, fun hdeclared => ?_⟩
  · rw [hvalues, get?_linkedEntries, Option.isSome_map]
  · rw [hvalues, get?_linkedEntries, hv] at hv'
    obtain rfl := Option.some.inj hv'
    refine Value.encode_linkedBy v hdeclared fun r hr => hkeys r ?_
    rw [hreferences]
    exact references_subset hv hr
  · unfold Document.toStorage
    rw [(Document.stored_linkedBy d hdeclared hkeys).1]

/-- **Resolving references does not show in storage**: the changed paths are the same, and as long
as the keys of what is fetched are stored as they were, so is what is stored. -/
theorem resolveDocuments_sameInStorage (h : (resolveDocuments c hops docs store).1 = .ok docs') :
    List.Forall₂ (fun before after => after.changedPaths = before.changedPaths) docs docs' ∧
      ((∀ state,
        (Resolution.fetchFrom c hops (docs.flatMap (·.references)) store).1 = .ok state →
        ∀ key doc, state.read key = some doc → doc.KeepsKey) →
        List.Forall₂ SameInStorage docs docs') := by
  rcases Nat.eq_zero_or_pos hops with rfl | hhops
  · obtain rfl : docs = docs' := Except.ok.inj h
    exact ⟨List.forall₂_same.mpr fun d _ => rfl, fun _ => List.forall₂_same.mpr fun d _ => .refl d⟩
  · obtain ⟨state, final, hfetch, hresolves, rfl⟩ := linkedBy_of_resolveDocuments hhops h
    rw [List.forall₂_map_right_iff, List.forall₂_same, List.forall₂_map_right_iff,
      List.forall₂_same]
    refine ⟨fun d _ => d.changedPaths_linkedBy, fun hkeys d _ => d.sameInStorage_linkedBy ?_⟩
    exact hresolves.keptKeys (hkeys state hfetch) d.references

/-- What is read is among what was found. -/
theorem Resolution.mem_of_read {state : Resolution} {key : ObjectKey} {doc : Document}
    (h : state.read key = some doc) : doc ∈ state.found.map fun e => e.2.doc := by
  obtain ⟨fetched, hlookup, rfl⟩ := Option.map_eq_some_iff.mp h
  obtain ⟨before, after, hfound, -⟩ := List.lookup_eq_some_iff.mp hlookup
  rw [hfound]
  exact List.mem_map.mpr ⟨(key, fetched), by simp, rfl⟩

/-! ### Authors and their mentors -/

/-- An author keeps the key. -/
theorem keepsKey_loadedPupil (id mentor : Int64) (v : Value) :
    (loadedPupil id mentor v).KeepsKey where
  stored := ⟨_, _, rfl, rfl, rfl, fun _ => rfl⟩
  declared f w hf hw := by
    obtain rfl := Option.some.inj hf
    obtain rfl : .int id = w := Option.some.inj hw
    exact .none rfl

theorem resolveDocuments_sameInStorage_pupil :
    (resolveDocuments pupilCatalog 3 [loadedPupil 3 1 (pupilReference 1)] (twoPupils "authors")).1 =
      .ok [loadedPupil 3 1 (.linked (loadedPupil 1 2 (.linked (loadedPupil 2 1
        (pupilReference 1)))))] ∧
    (∀ state, (Resolution.fetchFrom pupilCatalog 3
        ([loadedPupil 3 1 (pupilReference 1)].flatMap (·.references)) (twoPupils "authors")).1 =
          .ok state →
      ∀ key doc, state.read key = some doc → doc.KeepsKey) ∧
    List.Forall₂ (fun before after => after.changedPaths = before.changedPaths)
      [loadedPupil 3 1 (pupilReference 1)]
      [loadedPupil 3 1 (.linked (loadedPupil 1 2 (.linked (loadedPupil 2 1
        (pupilReference 1)))))] ∧
    List.Forall₂ SameInStorage [loadedPupil 3 1 (pupilReference 1)]
      [loadedPupil 3 1 (.linked (loadedPupil 1 2 (.linked (loadedPupil 2 1
        (pupilReference 1)))))] := by
  have hrun : (resolveDocuments pupilCatalog 3 [loadedPupil 3 1 (pupilReference 1)]
      (twoPupils "authors")).1 = .ok [loadedPupil 3 1 (.linked (loadedPupil 1 2
        (.linked (loadedPupil 2 1 (pupilReference 1)))))] := rfl
  have hkeys : ∀ state, (Resolution.fetchFrom pupilCatalog 3
        ([loadedPupil 3 1 (pupilReference 1)].flatMap (·.references)) (twoPupils "authors")).1 =
          .ok state →
      ∀ key doc, state.read key = some doc → doc.KeepsKey := by
    intro state hfetch key doc hread
    obtain rfl := Except.ok.inj hfetch
    have hfound := Resolution.mem_of_read hread
    rcases List.mem_pair.mp hfound with rfl | rfl
    · exact keepsKey_loadedPupil 2 1 (pupilReference 1)
    · exact keepsKey_loadedPupil 1 2 (pupilReference 2)
  obtain ⟨hchanged, hstored⟩ := resolveDocuments_sameInStorage hrun
  exact ⟨hrun, hkeys, hchanged, hstored hkeys⟩

/-! ### Badges of members -/

/-- Members have a number. -/
def memberType : DocumentType where
  name := "Member"
  className := "Member"
  collection := some "members"
  fields := [{ Field.ofKind "number" (.scalar .int) with storageName := idKey }]
  primaryKey := some "number"
  isDynamic := false
  allowsInheritance := false
  superclass := none

/-- The key of a badge is a reference to its owner. -/
def badgeType : DocumentType where
  name := "Badge"
  className := "Badge"
  collection := some "badges"
  fields := [{ Field.ofKind "owner" .genericReference with storageName := idKey }]
  primaryKey := some "owner"
  isDynamic := false
  allowsInheritance := false
  superclass := none

/-- The field of a badge. -/
def badgeField : Field :=
  .ofKind "badge" (.reference "Badge")

/-- Visitors wear a badge. -/
def visitorType : DocumentType where
  name := "Visitor"
  className := "Visitor"
  collection := some "visitors"
  fields := [{ Field.ofKind "id" (.scalar .objectId) with storageName := idKey }, badgeField]
  primaryKey := some "id"
  isDynamic := false
  allowsInheritance := false
  superclass := none

def badgeCatalog : Catalog :=
  ((Catalog.empty.add memberType).add badgeType).add visitorType

/-- The id of the badge of the first member, with or without the class of the member. -/
def badgeId (className : Option String) : Json :=
  genericEnvelope "members" className (.ofInt64 1)

/-- A member and the badge. -/
def badgeStore : Store :=
  (Store.insert "badges" [[(idKey, badgeId none)]]
    (Store.insert "members" [[(idKey, .ofInt64 1)]] .empty).2).2

/-- A visitor with something in place of the badge. -/
def visitorWith (v : Value) : Document :=
  ⟨visitorType, [("badge", v), ("id", .string "v1")], .empty, none⟩

/-- The loaded badge with something in place of the owner. -/
def badgeWith (v : Value) : Document :=
  ⟨badgeType, [("owner", v)], .empty, some [(idKey, badgeId none)]⟩

/-- The loaded member. -/
def firstMember : Document :=
  ⟨memberType, [("number", .int 1)], .empty, some [(idKey, .ofInt64 1)]⟩

/-- A reference to the badge. -/
def badgeReference : Value :=
  .reference (.typed "Badge" (badgeId none))

/-- The reference in the key of a badge is not one to a declared type. Once the owner is linked, the
visitor is stored with another id, although every fetched document keeps its key. -/
theorem visitor_not_sameInStorage :
    (resolveDocuments badgeCatalog 2 [visitorWith badgeReference] badgeStore).1 =
      .ok [visitorWith (.linked (badgeWith (.linked firstMember)))] ∧
    (∀ state, (Resolution.fetchFrom badgeCatalog 2
        ([visitorWith badgeReference].flatMap (·.references)) badgeStore).1 = .ok state →
      ∀ key doc, state.read key = some doc →
        ∃ raw id, doc.raw = some raw ∧ Entries.get? raw idKey = some id ∧ id.isNull = false ∧
          doc.keyJson.Yields id) ∧
    ReferencesDeclared badgeReference badgeField ∧
    (badgeReference.encode badgeField).Yields (badgeId none) ∧
    ((Value.linked (badgeWith (.linked firstMember))).encode badgeField).Yields
      (badgeId (some "Member")) := by
  refine ⟨rfl, fun state hfetch key doc hread => ?_, .reference rfl (.of_none rfl),
    fun _ => rfl, fun _ => rfl⟩
  obtain rfl := Except.ok.inj hfetch
  have hfound := Resolution.mem_of_read hread
  rcases List.mem_pair.mp hfound with rfl | rfl
  · exact ⟨_, _, rfl, rfl, rfl, fun _ => rfl⟩
  · exact ⟨_, _, rfl, rfl, rfl, fun _ => rfl⟩

end DocumentMapper
