import DocumentMapper.Storage.Encoding

/-!
# Relations between stored forms

How the stored form of a value is made of its parts depends on the kind of the field. A list, for
one, is stored as the array of its items on their own, as the array of its items for the field that
they have, as a geometry, or not at all. Two values are stored in related ways if their parts are.

This is proved once, for any relation under which all refusals of the two fields are related and
which goes through their checks. To compare a stored form with the one for another field, with the
one of another value or with itself in another run is then to compare the parts.

## Main results

* `CheckedAlike.list`, `CheckedAlike.dict`, `CheckedAlike.document`, `CheckedAlike.linked`: the
  stored forms of values with parts are related if those of the parts are.
-/

namespace DocumentMapper

/-- Two fields of one kind refuse and check alike, up to a relation of stored forms. -/
structure CheckedAlike (R : Drawing Json → Drawing Json → Prop) (v v' : Value) (f f' : Field) :
    Prop where
  kind : f'.kind = f.kind
  refused : ∀ cause cause', R (f.refuse cause) (f'.refuse cause')
  checked : ∀ {x x' : Drawing Json}, R x x' →
    R (f.check v >>= fun _ => x) (f'.check v' >>= fun _ => x')

namespace CheckedAlike

variable {R : Drawing Json → Drawing Json → Prop} {f f' : Field}

/-- The stored form of a list depends on its length, on which of its items are numbers, and on the
stored forms of the items. -/
theorem list {items items' : List Value} (h : CheckedAlike R (.list items) (.list items') f f')
    (hlength : items'.length = items.length)
    (hnumbers : (items'.all fun v => v.asDouble?.isSome) = items.all fun v => v.asDouble?.isSome)
    (hplain : R (do return .array (← plainItems items)) (do return .array (← plainItems items')))
    (hgeometry : ∀ type, R (do return geometry type (.array (← plainItems items)))
      (do return geometry type (.array (← plainItems items'))))
    (hitems : ∀ element, f.kind = .list element → R (do return .array (← encodeItems items element))
      (do return .array (← encodeItems items' element))) :
    R ((Value.list items).encode f) ((Value.list items').encode f') := by
  simp only [Value.encode]
  refine h.checked ?_
  rw [h.kind, hlength, hnumbers]
  split
  · split
    · exact hplain
    · split
      · split
        · exact hplain
        · exact h.refused _ _
      · split
        · exact hgeometry _
        · exact h.refused _ _
  · exact hitems _ ‹_›
  all_goals exact h.refused _ _

/-- The stored form of a dict depends on which keys it has and on the stored forms of the entries. -/
theorem dict {entries entries' : List (String × Value)}
    (h : CheckedAlike R (.dict entries) (.dict entries') f f')
    (hkeys : ∀ key, Entries.contains entries' key = Entries.contains entries key)
    (hplain : R (do return .object (← plainEntries entries))
      (do return .object (← plainEntries entries')))
    (hentries : ∀ element, f.kind = .dict element →
      R (do return .object (← encodeEntries entries f element))
        (do return .object (← encodeEntries entries' f' element))) :
    R ((Value.dict entries).encode f) ((Value.dict entries').encode f') := by
  simp only [Value.encode]
  refine h.checked ?_
  rw [h.kind, hkeys, hkeys]
  split
  · split
    · exact hplain
    · split
      · split
        · exact hplain
        · exact h.refused _ _
      · exact h.refused _ _
  · exact hentries _ ‹_›
  · exact hplain
  all_goals exact h.refused _ _

/-- The stored form of a document depends on its type, on its patch and on how it is referred to. -/
theorem document {doc doc' : Document} (h : CheckedAlike R (.document doc) (.document doc') f f')
    (htype : doc'.type = doc.type)
    (hwhole : R (do return .object (← doc.fullPatch).sets)
      (do return .object (← doc'.fullPatch).sets))
    (hid : R (f.linkId doc.keyJson) (f'.linkId doc'.keyJson))
    (henvelope : R (f.linkEnvelope doc.type doc.keyJson)
      (f'.linkEnvelope doc.type doc'.keyJson)) :
    R ((Value.document doc).encode f) ((Value.document doc').encode f') := by
  simp only [Value.encode]
  refine h.checked ?_
  rw [h.kind, htype]
  split
  · split
    · exact hwhole
    · exact h.refused _ _
  · split
    · exact hwhole
    · exact h.refused _ _
  · exact hid
  · exact henvelope
  all_goals exact h.refused _ _

/-- The stored form of a linked document depends on how it is referred to. -/
theorem linked {doc doc' : Document} (h : CheckedAlike R (.linked doc) (.linked doc') f f')
    (hlink : R (doc.type.linkJson doc.keyJson) (doc'.type.linkJson doc'.keyJson))
    (hid : R (f.linkId doc.keyJson) (f'.linkId doc'.keyJson))
    (henvelope : R (f.linkEnvelope doc.type doc.keyJson)
      (f'.linkEnvelope doc'.type doc'.keyJson)) :
    R ((Value.linked doc).encode f) ((Value.linked doc').encode f') := by
  simp only [Value.encode]
  refine h.checked ?_
  rw [h.kind]
  split
  · split
    · exact hlink
    · exact h.refused _ _
  · exact h.refused _ _
  · exact hid
  · exact henvelope
  all_goals exact h.refused _ _

end CheckedAlike

end DocumentMapper
