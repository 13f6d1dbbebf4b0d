import DocumentMapper.Proofs.FetchRounds

/-!
# What a resolution asks the store for

The lookups of a resolution come in rounds. The first round asks for what the given references lead
to, every further one for what the references of the documents of the round before lead to, less
what was asked for in an earlier round. A round has one lookup for each collection. So the lookups
stay few however often a document is referred to, and also where references go round in circles.

## Main results

* `Resolution.askedAtOnce_of_gather`: what one round asks for;
* `SearchLog.cons`: a round in front of the rounds that follow from it;
* `resolveValues_lookups`: no key is asked for twice, and what is asked for is what is referred to.
-/

namespace DocumentMapper

/-- The keys that a lookup asks for. -/
def Lookup.keys (l : Lookup) : List ObjectKey :=
  l.ids.map fun id => (l.collection, id.text)

/-- The keys that some lookups ask for. -/
def lookedUp (lookups : List Lookup) : List ObjectKey :=
  lookups.flatMap Lookup.keys

/-- The store after some lookups. -/
def Store.withLookups (s : Store) (lookups : List Lookup) : Store :=
  { s with lookups := s.lookups ++ lookups }

theorem Store.withLookups_nil (s : Store) : s.withLookups [] = s := by
  simp [withLookups]

theorem Store.withLookups_append (s : Store) (lookups more : List Lookup) :
    s.withLookups (lookups ++ more) = (s.withLookups lookups).withLookups more := by
  simp [withLookups]

@[simp] theorem Store.recordAt?_withLookups (s : Store) (lookups : List Lookup) (key : ObjectKey) :
    (s.withLookups lookups).recordAt? key = s.recordAt? key :=
  rfl

theorem mem_lookedUp {lookups : List Lookup} {key : ObjectKey} :
    key ∈ lookedUp lookups ↔ ∃ l ∈ lookups, key ∈ l.keys :=
  List.mem_flatMap

theorem mem_keys {l : Lookup} {key : ObjectKey} :
    key ∈ l.keys ↔ key.1 = l.collection ∧ ∃ id ∈ l.ids, id.text = key.2 := by
  simp only [Lookup.keys, List.mem_map, Prod.ext_iff, @eq_comm String l.collection]
  exact ⟨fun ⟨id, hid, hc, ht⟩ => ⟨hc, id, hid, ht⟩, fun ⟨hc, id, hid, ht⟩ => ⟨id, hid, hc, ht⟩⟩

/-! ### One round -/

/-- The lookups for what is wanted. -/
def lookupsFor (wanted : Entries Wanted) : List Lookup :=
  wanted.map fun e => ⟨e.1, e.2.ids⟩

theorem mem_lookedUp_lookupsFor {wanted : Entries Wanted} (h : (wanted.map Prod.fst).Nodup)
    {key : ObjectKey} : key ∈ lookedUp (lookupsFor wanted) ↔ Resolution.Wants wanted key := by
  rw [mem_lookedUp, lookupsFor, Resolution.Wants]
  constructor
  · rintro ⟨l, hl, hkey⟩
    obtain ⟨e, he, rfl⟩ := List.mem_map.mp hl
    obtain ⟨hcollection, hid⟩ := mem_keys.mp hkey
    exact ⟨e.2, Entries.get?_of_mem h (hcollection ▸ he), hid⟩
  · rintro ⟨w, hw, hid⟩
    exact ⟨_, List.mem_map.mpr ⟨_, Entries.mem_of_get? hw, rfl⟩, mem_keys.mpr ⟨rfl, hid⟩⟩

/-- What a round asks for, given the keys that were asked for before and the references that were
found before. -/
structure AskedAtOnce (c : Catalog) (before : List ObjectKey) (found : Reference → Prop)
    (round : List Lookup) : Prop where
  /-- There is at most one lookup for a collection. -/
  collections : (round.map (·.collection)).Nodup
  keys : (lookedUp round).Nodup
  fresh : ∀ key ∈ lookedUp round, key ∉ before
  /-- Every id is the one of a reference. -/
  referred : ∀ l ∈ round, ∀ id ∈ l.ids,
    ∃ r, found r ∧ r.id = id ∧ c.locatedKey? r = some (l.collection, id.text)
  /-- What the references lead to is asked for, here or before. -/
  followed : ∀ r key, found r → c.locatedKey? r = some key → key ∈ before ∨ key ∈ lookedUp round

namespace Resolution

section

variable {c : Catalog} {state : Resolution} {wanted : Entries Wanted} {r : Reference}
  {given : List Reference}

/-- What is wanted so far: distinct ids of references that can be located. -/
structure Collected (c : Catalog) (given : List Reference) (wanted : Entries Wanted) : Prop where
  texts : ∀ e ∈ wanted, (e.2.ids.map Json.text).Nodup
  referred : ∀ e ∈ wanted, ∀ id ∈ e.2.ids,
    ∃ r ∈ given, r.id = id ∧ c.locatedKey? r = some (e.1, id.text)

/-- An id is added only if its text is new. -/
theorem nodup_add {w : Wanted} (h : (w.ids.map Json.text).Nodup) (id : Json) :
    ((w.add id).ids.map Json.text).Nodup := by
  unfold Wanted.add
  split
  · exact h
  · rename_i hnew
    rw [List.map_append, List.nodup_append]
    refine ⟨h, by simp, fun text htext other hother heq => hnew ?_⟩
    obtain ⟨present, hpresent, rfl⟩ := List.mem_map.mp htext
    obtain rfl := List.mem_singleton.mp hother
    exact List.any_eq_true.mpr ⟨present, hpresent, beq_iff_eq.mpr heq⟩

theorem mem_ids_add {w : Wanted} {id present : Json} (h : present ∈ (w.add id).ids) :
    present ∈ w.ids ∨ present = id := by
  unfold Wanted.add at h
  split at h
  · exact .inl h
  · simpa using h

/-- One more reference adds at most its own id. -/
theorem Collected.want (h : Collected c given wanted) (hr : r ∈ given) :
    Collected c given (state.want c wanted r) := by
  unfold Resolution.want
  split
  · rename_i key declared htarget
    split
    · exact h
    · -- The entry that is extended is an old one or a new one without ids.
      have hlocated : c.locatedKey? r = some key := by rw [Catalog.locatedKey?, htarget]; rfl
      have hkey : (key.1, r.id.text) = key := by
        unfold Catalog.target? at htarget
        split at htarget
        · cases htarget
          rfl
        · cases htarget
      generalize hw : (wanted.get? key.1).getD ⟨declared, []⟩ = w
      have hentry : (key.1, w) ∈ wanted ∨ w.ids = [] := by
        cases hget : wanted.get? key.1 with
        | none =>
          rw [hget] at hw
          exact .inr (hw ▸ rfl)
        | some w' =>
          rw [hget] at hw
          exact .inl (hw ▸ Entries.mem_of_get? hget)
      constructor
      · intro e he
        rcases Entries.mem_insertSorted he with he | rfl
        · exact h.texts e he
        · refine nodup_add ?_ r.id
          rcases hentry with hold | hnone
          · exact h.texts _ hold
          · rw [hnone]
            exact List.nodup_nil
      · intro e he id hid
        rcases Entries.mem_insertSorted he with he | rfl
        · exact h.referred e he id hid
        · rcases mem_ids_add hid with hid | rfl
          · rcases hentry with hold | hnone
            · exact h.referred _ hold id hid
            · rw [hnone] at hid
              exact absurd hid List.not_mem_nil
          · exact ⟨r, hr, rfl, hlocated.trans (congrArg some hkey.symm)⟩
  · exact h

theorem collected_foldl (given : List Reference) :
    Collected c given (given.foldl (state.want c) []) :=
  List.foldlRecOn given (state.want c) ⟨nofun, nofun⟩ fun _ h _ hr => h.want hr

/-- What was gathered is what the references want. -/
theorem eq_of_gather (h : state.gather c given [] = .ok wanted) :
    given.foldl (state.want c) [] = wanted := by
  rw [gather_eq] at h
  cases hlocate : given.mapM c.locate with
  | error cause => simp [hlocate, Except.map] at h
  | ok targets => simpa [hlocate, Except.map] using h

/-- What was gathered has one entry for a collection. -/
theorem nodup_of_gather (h : state.gather c given [] = .ok wanted) :
    (wanted.map Prod.fst).Nodup := by
  rw [← eq_of_gather h]
  exact (sorted_foldl Entries.sorted_nil).nodup

/-- **A round asks for what its references lead to**, each key once and unless it was asked for
before. -/
theorem askedAtOnce_of_gather (h : state.gather c given [] = .ok wanted) :
    AskedAtOnce c state.requested (· ∈ given) (lookupsFor wanted) := by
  have hnodup := nodup_of_gather h
  have hcollected : Collected c given wanted := eq_of_gather h ▸ collected_foldl given
  have hwants : ∀ key, key ∈ lookedUp (lookupsFor wanted) ↔
      key ∉ state.requested ∧ ∃ r ∈ given, c.locatedKey? r = some key := by
    intro key
    rw [mem_lookedUp_lookupsFor hnodup, ← eq_of_gather h, wants_foldl,
      or_iff_right (not_wants_nil key)]
  constructor
  · rw [lookupsFor, List.map_map]
    exact hnodup
  · rw [lookedUp, List.nodup_flatMap]
    constructor
    · intro l hl
      obtain ⟨e, he, rfl⟩ := List.mem_map.mp hl
      have htexts := hcollected.texts e he
      rw [List.Nodup, List.pairwise_map] at htexts
      exact List.pairwise_map.mpr (htexts.imp fun hne heq => hne (congrArg Prod.snd heq))
    · refine List.pairwise_map.mpr ((List.pairwise_map.mp hnodup).imp fun {a b} hne => ?_)
      intro key ha hb
      exact hne ((mem_keys.mp ha).1.symm.trans (mem_keys.mp hb).1)
  · exact fun key hkey => ((hwants key).mp hkey).1
  · intro l hl id hid
    obtain ⟨e, he, rfl⟩ := List.mem_map.mp hl
    exact hcollected.referred e he id hid
  · intro r key hr hkey
    by_cases hbefore : key ∈ state.requested
    · exact .inl hbefore
    · exact .inr ((hwants key).mpr ⟨hbefore, r, hr, hkey⟩)

/-- A round logs its lookups and asks for their keys. -/
theorem fetchAll_lookups (c : Catalog) (hopsLeft : Nat) (wanted : Entries Wanted)
    (state : Resolution) (store : Store) :
    (fetchAll c hopsLeft wanted state store).2.2 = store.withLookups (lookupsFor wanted) ∧
      (fetchAll c hopsLeft wanted state store).2.1.requested =
        state.requested ++ lookedUp (lookupsFor wanted) := by
  induction wanted generalizing state store with
  | nil => simp [fetchAll, lookupsFor, lookedUp, Store.withLookups_nil]
  | cons entry rest ih =>
    obtain ⟨collection, w⟩ := entry
    simp only [fetchAll]
    obtain ⟨hstore, hrequested⟩ := ih
      (accept c collection w.declared hopsLeft (store.fetch collection w.ids).1
        { state with
          requested := state.requested ++ w.ids.map fun id => (collection, id.text) }).2
      (store.fetch collection w.ids).2
    obtain ⟨haccept, -, -⟩ := lookup_accept c collection w.declared hopsLeft
      (store.fetch collection w.ids).1
      { state with requested := state.requested ++ w.ids.map fun id => (collection, id.text) }
      default
    rw [hstore, hrequested, haccept]
    exact ⟨by simp [Store.withLookups, Store.fetch, lookupsFor],
      by simp [lookedUp, lookupsFor, Lookup.keys]⟩

end

end Resolution

/-! ### All rounds -/

/-- A key is asked for in a round, counted from zero. -/
def AskedIn (rounds : List (List Lookup)) (n : Nat) (key : ObjectKey) : Prop :=
  ∃ round, rounds[n]? = some round ∧ key ∈ lookedUp round

/-- A reference is found before a round: before the first one it is given, and before a further one
it is in a document that the round before has fetched. -/
def FoundBefore (read : ObjectKey → Option Document) (given : Reference → Prop)
    (rounds : List (List Lookup)) : Nat → Reference → Prop
  | 0, r => given r
  | n + 1, r => ∃ key doc, AskedIn rounds n key ∧ read key = some doc ∧ r ∈ doc.references

/-- What the rounds of a search ask for, what they read under the keys, and when they end. -/
structure SearchLog (c : Catalog) (store : Store) (before : List ObjectKey)
    (given : Reference → Prop) (hops : Nat) (succeeds : Prop)
    (read : ObjectKey → Option Document) (rounds : List (List Lookup)) : Prop where
  length_le : rounds.length ≤ hops
  collections : ∀ round ∈ rounds, (round.map (·.collection)).Nodup
  /-- No key is asked for twice. -/
  keys : (lookedUp rounds.flatten).Nodup
  fresh : ∀ key ∈ lookedUp rounds.flatten, key ∉ before
  /-- Every id that is asked for is the one of a reference that was found before the round. -/
  referred : ∀ n round, rounds[n]? = some round → ∀ l ∈ round, ∀ id ∈ l.ids,
    ∃ r, FoundBefore read given rounds n r ∧ r.id = id ∧
      c.locatedKey? r = some (l.collection, id.text)
  /-- What references lead to is asked for, as far as there are rounds and hops. -/
  followed : ∀ n r key, n < rounds.length ∨ succeeds ∧ n < hops →
    FoundBefore read given rounds n r → c.locatedKey? r = some key →
      key ∈ before ∨ ∃ m ≤ n, AskedIn rounds m key
  /-- A document is read where there is a record, as the type that a reference into the collection
  expects or as a subtype of it. -/
  readAs : ∀ n key, AskedIn rounds n key →
    ((read key).isSome ↔ (store.recordAt? key).isSome) ∧
    ∀ doc, read key = some doc → ∃ raw r text declared, store.recordAt? key = some raw ∧
      FoundBefore read given rounds n r ∧ c.target? r = some ((key.1, text), declared) ∧
      doc = Document.ofStorage c (c.concreteType declared raw) raw

section

variable {c : Catalog} {store : Store} {before : List ObjectKey} {given given' : Reference → Prop}
  {hops : Nat} {succeeds : Prop} {read : ObjectKey → Option Document} {round : List Lookup}
  {rounds : List (List Lookup)} {n : Nat} {key : ObjectKey} {r : Reference}

theorem askedIn_zero : AskedIn (round :: rounds) 0 key ↔ key ∈ lookedUp round := by
  simp [AskedIn]

theorem askedIn_succ : AskedIn (round :: rounds) (n + 1) key ↔ AskedIn rounds n key := by
  simp [AskedIn]

theorem not_askedIn_nil : ¬ AskedIn [] n key := by
  simp [AskedIn]

/-- The references that a round leaves to the following ones. -/
theorem foundBefore_succ
    (hgiven : ∀ r, given' r ↔
      ∃ key doc, key ∈ lookedUp round ∧ read key = some doc ∧ r ∈ doc.references) :
    FoundBefore read given (round :: rounds) (n + 1) r ↔ FoundBefore read given' rounds n r := by
  cases n with
  | zero => simp only [FoundBefore, askedIn_zero, hgiven]
  | succ n => simp only [FoundBefore, askedIn_succ]

/-- What a search reads depends on the records alone. -/
theorem SearchLog.of_recordAt? {store' : Store}
    (h : SearchLog c store before given hops succeeds read rounds)
    (hrecord : ∀ key, store'.recordAt? key = store.recordAt? key) :
    SearchLog c store' before given hops succeeds read rounds where
  __ := h
  readAs n key hasked := by
    rw [hrecord]
    exact h.readAs n key hasked

/-- A search without rounds. -/
theorem SearchLog.nil
    (hdone : succeeds → 0 < hops → ∀ r key, given r → c.locatedKey? r = some key → key ∈ before) :
    SearchLog c store before given hops succeeds read [] where
  length_le := Nat.zero_le _
  collections := nofun
  keys := List.nodup_nil
  fresh := nofun
  referred _ _ h := nomatch h
  readAs _ _ h := absurd h not_askedIn_nil
  followed n r key hn hfound hkey := by
    obtain ⟨hsucceeds, hn⟩ := hn.resolve_left (Nat.not_lt_zero n)
    cases n with
    | zero => exact .inl (hdone hsucceeds hn r key hfound hkey)
    | succ n =>
      obtain ⟨key, doc, hasked, -⟩ := hfound
      exact absurd hasked not_askedIn_nil

/-- **A round in front of those that follow from it.** -/
theorem SearchLog.cons (hround : AskedAtOnce c before given round)
    (hread : ∀ key ∈ lookedUp round,
      ((read key).isSome ↔ (store.recordAt? key).isSome) ∧
      ∀ doc, read key = some doc → ∃ raw r text declared, store.recordAt? key = some raw ∧
        given r ∧ c.target? r = some ((key.1, text), declared) ∧
        doc = Document.ofStorage c (c.concreteType declared raw) raw)
    (hgiven : ∀ r, given' r ↔
      ∃ key doc, key ∈ lookedUp round ∧ read key = some doc ∧ r ∈ doc.references)
    (h : SearchLog c store (before ++ lookedUp round) given' hops succeeds read rounds) :
    SearchLog c store before given (hops + 1) succeeds read (round :: rounds) := by
  have hflatten : lookedUp (round :: rounds).flatten = lookedUp round ++ lookedUp rounds.flatten := by
    simp [lookedUp]
  constructor
  · exact Nat.succ_le_succ h.length_le
  · exact List.forall_mem_cons.mpr ⟨hround.collections, h.collections⟩
  · rw [hflatten, List.nodup_append]
    refine ⟨hround.keys, h.keys, fun key hkey other hother heq => ?_⟩
    exact h.fresh other hother (List.mem_append_right _ (heq ▸ hkey))
  · intro key hkey
    rw [hflatten, List.mem_append] at hkey
    rcases hkey with hkey | hkey
    · exact hround.fresh key hkey
    · exact fun hbefore => h.fresh key hkey (List.mem_append_left _ hbefore)
  · intro n r hn l hl id hid
    cases n with
    | zero =>
      obtain rfl : round = r := by simpa using hn
      exact hround.referred l hl id hid
    | succ n =>
      obtain ⟨r, hr, hid, hkey⟩ := h.referred n r (by simpa using hn) l hl id hid
      exact ⟨r, (foundBefore_succ hgiven).mpr hr, hid, hkey⟩
  · intro n r key hn hfound hkey
    cases n with
    | zero =>
      refine (hround.followed r key hfound hkey).imp_right fun hasked => ?_
      exact ⟨0, Nat.le_refl 0, askedIn_zero.mpr hasked⟩
    | succ n =>
      have hn : n < rounds.length ∨ succeeds ∧ n < hops := by simpa using hn
      rcases h.followed n r key hn ((foundBefore_succ hgiven).mp hfound) hkey with hbefore | hlater
      · refine (List.mem_append.mp hbefore).imp_right fun hasked => ?_
        exact ⟨0, Nat.zero_le _, askedIn_zero.mpr hasked⟩
      · obtain ⟨m, hm, hasked⟩ := hlater
        exact .inr ⟨m + 1, Nat.succ_le_succ hm, askedIn_succ.mpr hasked⟩
  · intro n key hasked
    cases n with
    | zero => exact hread key (askedIn_zero.mp hasked)
    | succ n =>
      obtain ⟨hsome, hreadAs⟩ := h.readAs n key (askedIn_succ.mp hasked)
      refine ⟨hsome, fun doc hdoc => ?_⟩
      obtain ⟨raw, r, text, declared, hraw, hr, htarget, heq⟩ := hreadAs doc hdoc
      exact ⟨raw, r, text, declared, hraw, (foundBefore_succ hgiven).mpr hr, htarget, heq⟩

end

namespace Resolution

variable {c : Catalog} {hops : Nat} {state : Resolution} {wanted : Entries Wanted}
  {given : List Reference}

/-- A round reads what is stored under the keys that it asks for. -/
theorem read_fetchAll (store : Store) (hgather : state.gather c given [] = .ok wanted)
    (hfound : ∀ key, (state.found.lookup key).isSome → key ∈ state.requested) (hopsLeft : Nat)
    (key : ObjectKey) :
    (fetchAll c hopsLeft wanted state store).2.1.read key =
      if key ∈ lookedUp (lookupsFor wanted) then fetched? c wanted store key
      else state.read key := by
  have hnodup := nodup_of_gather hgather
  obtain ⟨-, hlookup, -⟩ := lookup_fetchAll c hopsLeft hnodup state store key
  rw [read, hlookup]
  split
  · rename_i hkey
    have hnew := (askedAtOnce_of_gather hgather).fresh key hkey
    have hnone : state.found.lookup key = none := by
      rw [← Option.not_isSome_iff_eq_none]
      exact mt (hfound key) hnew
    rw [hnone, Option.or_none, Option.map_map]
    exact Option.map_id'
  · rename_i hkey
    have hnone : fetched? c wanted store key = none := by
      rw [← Option.not_isSome_iff_eq_none, fetched?_isSome, ← mem_lookedUp_lookupsFor hnodup]
      exact fun h => hkey h.1
    rw [hnone]
    rfl

/-- What a round fetches is read as the type that a reference into the collection expects. -/
theorem fetched?_readAs {store : Store} (hgather : state.gather c given [] = .ok wanted)
    {key : ObjectKey} {doc : Document} (h : fetched? c wanted store key = some doc) :
    ∃ raw r text declared, store.recordAt? key = some raw ∧ r ∈ given ∧
      c.target? r = some ((key.1, text), declared) ∧
      doc = Document.ofStorage c (c.concreteType declared raw) raw := by
  obtain ⟨w, hw, h⟩ := Option.bind_eq_some_iff.mp h
  split at h
  · obtain ⟨raw, hraw, rfl⟩ := Option.map_eq_some_iff.mp h
    have hdeclared : ((given.foldl (state.want c) []).get? key.1).map (·.declared) =
        (Option.map (·.declared) (none : Option Wanted)).or
          (given.findSome? (state.expected? c key.1)) :=
      declared_foldl
    rw [eq_of_gather hgather, hw, Option.map_some, Option.map_none, Option.none_or] at hdeclared
    obtain ⟨r, hr, hexpected⟩ := List.exists_of_findSome?_eq_some hdeclared.symm
    obtain ⟨text, htarget⟩ := target?_of_expected? hexpected
    exact ⟨raw, r, text, w.declared, hraw, hr, htarget, rfl⟩
  · cases h

/-- A round finds nothing that was not asked for. -/
theorem found_fetchAll (store : Store) (hgather : state.gather c given [] = .ok wanted)
    (hfound : ∀ key, (state.found.lookup key).isSome → key ∈ state.requested) (hopsLeft : Nat)
    (key : ObjectKey)
    (h : ((fetchAll c hopsLeft wanted state store).2.1.found.lookup key).isSome) :
    key ∈ (fetchAll c hopsLeft wanted state store).2.1.requested := by
  have hnodup := nodup_of_gather hgather
  obtain ⟨hrequested, hlookup, -⟩ := lookup_fetchAll c hopsLeft hnodup state store key
  rw [hlookup, Option.isSome_or, Option.isSome_map, Bool.or_eq_true, fetched?_isSome] at h
  rw [hrequested]
  exact h.symm.imp (hfound key) (·.1)

/-- **A round in front of what is asked for after it**, by a search that goes on reading what was
read. -/
theorem searchLog_round {store store' : Store} {state' : Resolution} {keys : List ObjectKey}
    (succeeds : Prop) (read : ObjectKey → Option Document) (log : List (List Lookup))
    (hgather : state.gather c given [] = .ok wanted)
    (hfound : ∀ key, (state.found.lookup key).isSome → key ∈ state.requested)
    (hfetch : fetchAll c hops wanted state store = (keys, state', store'))
    (hlater : ∀ key ∈ state'.requested, read key = state'.read key)
    (h : SearchLog c store state'.requested (· ∈ state'.referencesOf keys) hops succeeds read log) :
    (∀ key ∈ state.requested, read key = state.read key) ∧
      SearchLog c store state.requested (· ∈ given) (hops + 1) succeeds read
        (lookupsFor wanted :: log) := by
  have hnodup := nodup_of_gather hgather
  have hround := askedAtOnce_of_gather hgather
  have hrequested := (fetchAll_lookups c hops wanted state store).2
  have hread := fun key => read_fetchAll store hgather hfound hops key
  have hkeys := fun key => (lookup_fetchAll c hops hnodup state store key).2.2
  simp only [hfetch] at hrequested hread hkeys
  have hearlier : ∀ key ∈ state.requested, read key = state.read key := by
    intro key hkey
    rw [hlater key (hrequested ▸ List.mem_append_left _ hkey), hread,
      if_neg fun hnew => hround.fresh key hnew hkey]
  have hfetched : ∀ key ∈ lookedUp (lookupsFor wanted),
      state'.read key = fetched? c wanted store key ∧ read key = fetched? c wanted store key := by
    intro key hkey
    have hsame := hlater key (hrequested ▸ List.mem_append_right _ hkey)
    rw [hsame, hread, if_pos hkey]
    exact ⟨rfl, rfl⟩
  refine ⟨hearlier, .cons hround (fun key hkey => ?_) (fun r => ?_) (hrequested ▸ h)⟩
  · rw [(hfetched key hkey).2, fetched?_isSome, ← mem_lookedUp_lookupsFor hnodup]
    exact ⟨and_iff_right hkey, fun doc hdoc => fetched?_readAs hgather hdoc⟩
  · rw [mem_referencesOf]
    constructor
    · rintro ⟨key, hkey, doc, hdoc, hr⟩
      have hwants := (fetched?_isSome.mp ((hkeys key).mp hkey)).1
      have hasked := (mem_lookedUp_lookupsFor hnodup).mpr hwants
      rw [(hfetched key hasked).1, ← (hfetched key hasked).2] at hdoc
      exact ⟨key, doc, hasked, hdoc, hr⟩
    · rintro ⟨key, doc, hasked, hdoc, hr⟩
      rw [(hfetched key hasked).2] at hdoc
      refine ⟨key, (hkeys key).mpr (by rw [hdoc]; rfl), doc, ?_, hr⟩
      rw [(hfetched key hasked).1, hdoc]

/-- **The rounds of a search ask for what the references lead to**, round by round. -/
theorem searchLog_rounds (store : Store) (hgather : state.gather c given [] = .ok wanted)
    (hfound : ∀ key, (state.found.lookup key).isSome → key ∈ state.requested) :
    ∃ read log, (rounds c hops wanted state store).2 = store.withLookups log.flatten ∧
      (∀ key ∈ state.requested, read key = state.read key) ∧
      SearchLog c store state.requested (· ∈ given) hops
        (∃ final, (rounds c hops wanted state store).1 = .ok final) read log := by
  induction hops generalizing given wanted state store with
  | zero =>
    exact ⟨state.read, [], (store.withLookups_nil).symm, fun _ _ => rfl,
      .nil fun _ h => absurd h (Nat.lt_irrefl 0)⟩
  | succ hops ih =>
    rw [rounds]
    split
    · -- Nothing is wanted, so what is referred to was asked for before.
      rename_i hempty
      refine ⟨state.read, [], (store.withLookups_nil).symm, fun _ _ => rfl, .nil ?_⟩
      intro _ _ r key hr hkey
      refine ((askedAtOnce_of_gather hgather).followed r key hr hkey).resolve_right ?_
      simp [List.isEmpty_iff.mp hempty, lookupsFor, lookedUp]
    · have hfound' := found_fetchAll store hgather hfound hops
      have hstore := (fetchAll_lookups c hops wanted state store).1
      rcases hfetch : fetchAll c hops wanted state store with ⟨keys, state', store'⟩
      simp only [hfetch] at hfound' hstore ⊢
      subst hstore
      have hround := fun succeeds read log =>
        searchLog_round succeeds read log hgather hfound hfetch
      split
      · rename_i hlast
        subst hlast
        obtain ⟨hearlier, hlog⟩ := hround _ state'.read [] (fun _ _ => rfl)
          (.nil fun _ h => absurd h (Nat.lt_irrefl 0))
        exact ⟨state'.read, [lookupsFor wanted], by simp, hearlier, hlog⟩
      · split
        · rename_i next hnext
          obtain ⟨read, log, hstore, hlater, hsearch⟩ :=
            ih (store.withLookups (lookupsFor wanted)) hnext hfound'
          obtain ⟨hearlier, hlog⟩ := hround _ read log hlater (hsearch.of_recordAt? fun _ => rfl)
          refine ⟨read, lookupsFor wanted :: log, ?_, hearlier, hlog⟩
          rw [hstore, ← Store.withLookups_append]
          rfl
        · rename_i cause _
          have hfails : ¬ ∃ final, (.error cause : Except Error Resolution) = .ok final := by
            rintro ⟨final, h⟩
            cases h
          obtain ⟨hearlier, hlog⟩ := hround _ state'.read [] (fun _ _ => rfl)
            (.nil fun h => absurd h hfails)
          exact ⟨state'.read, [lookupsFor wanted], by simp, hearlier, hlog⟩

/-- The rounds from nothing. -/
theorem searchLog_fetchFrom (c : Catalog) (hops : Nat) (given : List Reference) (store : Store) :
    ∃ read log, (fetchFrom c hops given store).2 = store.withLookups log.flatten ∧
      SearchLog c store [] (· ∈ given) hops
        (∃ final, (fetchFrom c hops given store).1 = .ok final) read log := by
  unfold fetchFrom
  split
  · rename_i wanted hgather
    obtain ⟨read, log, hlog, -, hsearch⟩ :=
      searchLog_rounds store hgather fun _ h => nomatch h
    exact ⟨read, log, hlog, hsearch⟩
  · refine ⟨fun _ => none, [], (store.withLookups_nil).symm, .nil ?_⟩
    rintro ⟨final, hfinal⟩
    cases hfinal

end Resolution

/-- **A document is asked for at most once.** The lookups that a resolution adds to the log come in
at most as many rounds as there are hops, each with at most one lookup for a collection, and no key
is in two of them or twice in one. Every id is that of a reference in the values, in the first
round, and of one in a document that the round before has fetched, in the others. Nothing else about
the store changes. Conversely what such references lead to is asked for in its round or was asked
for before, and a resolution that succeeds stops early only where nothing is left to ask for. -/
theorem resolveValues_lookups (c : Catalog) (hops : Nat) (values : List Value) (store : Store) :
    ∃ read log, (resolveValues c hops values store).2 = store.withLookups log.flatten ∧
      SearchLog c store [] (· ∈ referencesOfItems values) hops
        (∃ resolved, (resolveValues c hops values store).1 = .ok resolved) read log := by
  unfold resolveValues
  split
  · rename_i hnone
    exact ⟨fun _ => none, [], (store.withLookups_nil).symm,
      .nil fun _ h => absurd h (by simp [hnone])⟩
  · obtain ⟨read, log, hlog, hsearch⟩ :=
      Resolution.searchLog_fetchFrom c hops (referencesOfItems values) store
    refine ⟨read, log, hlog, ?_⟩
    have hsucceeds : (∃ resolved, ((Resolution.fetchFrom c hops (referencesOfItems values) store).1.map
        fun state => state.attachAll c fun link => attachItems c link values) = .ok resolved) ↔
        ∃ final, (Resolution.fetchFrom c hops (referencesOfItems values) store).1 = .ok final := by
      cases (Resolution.fetchFrom c hops (referencesOfItems values) store).1 <;>
        simp [Except.map]
    simpa only [hsucceeds] using hsearch

end DocumentMapper
