import DocumentMapper.Proofs.Loading
import DocumentMapper.Proofs.OneRound

/-!
# What the rounds of a resolution fetch

A resolution works breadth first: the first round fetches what the given references lead to, every
further one what the references of the documents of the round before lead to. So a document is
fetched in the round that is its distance from the given references, counted in hops, and the rounds
find every stored document within as many hops as there are rounds. Only references that can be
located are followed.

## Main results

* `Resolution.Searched`: what is known of a search after some rounds;
* `Resolution.Searched.round`: one more round finds what is one hop further;
* `Resolution.searched_fetchFrom`: the rounds find what is stored within their number of hops, each
  document in the round of its distance.
-/

namespace DocumentMapper

/-! ### Hops -/

/-- A key that some references lead to by a number of hops, by way of the documents that were
read. -/
inductive Hops (c : Catalog) (read : ObjectKey → Option Document) (start : List Reference) :
    Nat → ObjectKey → Prop
  | first {r : Reference} {key : ObjectKey} (hr : r ∈ start) (hkey : c.locatedKey? r = some key) :
      Hops c read start 1 key
  | next {n : Nat} {before key : ObjectKey} {doc : Document} {r : Reference}
      (h : Hops c read start n before) (hdoc : read before = some doc) (hr : r ∈ doc.references)
      (hkey : c.locatedKey? r = some key) : Hops c read start (n + 1) key

/-- The least number of hops to a key. -/
def Level (c : Catalog) (read : ObjectKey → Option Document) (start : List Reference) (n : Nat)
    (key : ObjectKey) : Prop :=
  Hops c read start n key ∧ ∀ m < n, ¬ Hops c read start m key

section

variable {c : Catalog} {read read' : ObjectKey → Option Document} {start : List Reference}
  {n level : Nat} {key : ObjectKey}

theorem Hops.pos (h : Hops c read start n key) : 0 < n := by
  cases h <;> exact Nat.succ_pos _

/-- A key that is reached has a level. -/
theorem Hops.exists_level (h : Hops c read start n key) :
    ∃ m ≤ n, Level c read start m key := by
  induction n using Nat.strongRecOn with
  | ind n ih =>
    by_cases hless : ∃ m < n, Hops c read start m key
    · obtain ⟨m, hm, hhops⟩ := hless
      obtain ⟨k, hk, hlevel⟩ := ih m hm hhops
      exact ⟨k, by omega, hlevel⟩
    · exact ⟨n, Nat.le_refl n, h, fun m hm hhops => hless ⟨m, hm, hhops⟩⟩

/-- A key has one level. -/
theorem Level.unique {m : Nat} (hm : Level c read start m key) (hn : Level c read start n key) :
    m = n := by
  rcases Nat.lt_trichotomy m n with h | h | h
  · exact absurd hm.1 (hn.2 m h)
  · exact h
  · exact absurd hn.1 (hm.2 n h)

/-- What is read further away does not count for the next hop. -/
theorem hops_congr (h : ∀ m ≤ level, ∀ k, Hops c read start m k → read k = read' k)
    (hn : n ≤ level + 1) : Hops c read start n key ↔ Hops c read' start n key := by
  induction n generalizing key with
  | zero => exact ⟨fun h => absurd h.pos (Nat.lt_irrefl 0), fun h => absurd h.pos (Nat.lt_irrefl 0)⟩
  | succ n ih =>
    constructor
    · intro hhops
      cases hhops with
      | first hr hkey => exact .first hr hkey
      | next hbefore hdoc hr hkey =>
        rw [h n (by omega) _ hbefore] at hdoc
        exact .next ((ih (by omega)).mp hbefore) hdoc hr hkey
    · intro hhops
      cases hhops with
      | first hr hkey => exact .first hr hkey
      | next hbefore hdoc hr hkey =>
        have hbefore := (ih (by omega)).mpr hbefore
        rw [← h n (by omega) _ hbefore] at hdoc
        exact .next hbefore hdoc hr hkey

theorem level_congr (h : ∀ m ≤ level, ∀ k, Hops c read start m k → read k = read' k)
    (hn : n ≤ level + 1) : Level c read start n key ↔ Level c read' start n key :=
  and_congr (hops_congr h hn)
    (forall_congr' fun m => imp_congr_right fun hm => not_congr (hops_congr h (by omega)))

end

/-! ### Searches -/

namespace Resolution

/-- The documents that were read. -/
def read (state : Resolution) (key : ObjectKey) : Option Document :=
  (state.found.lookup key).map (·.doc)

end Resolution

/-- A reference that is among the given ones or in a document that was read. -/
def IsMet (read : ObjectKey → Option Document) (start : List Reference) (r : Reference) : Prop :=
  r ∈ start ∨ ∃ key doc, read key = some doc ∧ r ∈ doc.references

/-- A document is what the record of its key holds, read as the type that a reference into the
collection expects or as a subtype of it. -/
def IsReadAs (c : Catalog) (store : Store) (read : ObjectKey → Option Document)
    (start : List Reference) (key : ObjectKey) (doc : Document) : Prop :=
  ∃ raw r text declared, store.recordAt? key = some raw ∧ IsMet read start r ∧
    c.target? r = some ((key.1, text), declared) ∧
    doc = Document.ofStorage c (c.concreteType declared raw) raw

namespace Resolution

/-- What is known of a search for everything within some hops after some rounds. -/
structure Searched (c : Catalog) (store : Store) (start : List Reference) (hops level : Nat)
    (state : Resolution) : Prop where
  /-- Exactly what is within as many hops as there were rounds was asked for. -/
  requested : ∀ key, key ∈ state.requested ↔ ∃ n ≤ level, Hops c state.read start n key
  /-- What is stored of it was found. -/
  found : ∀ key, (state.found.lookup key).isSome ↔
    key ∈ state.requested ∧ (store.recordAt? key).isSome
  /-- The hops that may follow a document make up for its level. -/
  atLevel : ∀ key f, state.found.lookup key = some f →
    ∃ n, Level c state.read start n key ∧ n + f.hopsLeft = hops
  readAs : ∀ key f, state.found.lookup key = some f →
    IsReadAs c store state.read start key f.doc

/-- What is wanted is one hop further, and each collection is asked for as what a reference
expects. -/
structure Wanting (c : Catalog) (start : List Reference) (level : Nat) (state : Resolution)
    (wanted : Entries Wanted) : Prop where
  nodup : (wanted.map Prod.fst).Nodup
  wants : ∀ key, Wants wanted key ↔
    key ∉ state.requested ∧ Hops c state.read start (level + 1) key
  declared : ∀ collection w, wanted.get? collection = some w →
    ∃ r text, IsMet state.read start r ∧ c.target? r = some ((collection, text), w.declared)

theorem searched_empty (c : Catalog) (store : Store) (start : List Reference) (hops : Nat) :
    Searched c store start hops 0 empty where
  requested key := by
    refine ⟨fun h => absurd h List.not_mem_nil, fun ⟨n, hn, hhops⟩ => ?_⟩
    exact absurd hhops.pos (by omega)
  found key := ⟨nofun, fun h => absurd h.1 List.not_mem_nil⟩
  atLevel _ _ h := nomatch h
  readAs _ _ h := nomatch h

section

variable {c : Catalog} {store store' : Store} {start : List Reference} {hops level hopsLeft : Nat}
  {state state' : Resolution} {wanted : Entries Wanted} {keys : List ObjectKey} {key : ObjectKey}

/-- What was asked for before is not wanted again, so a round leaves it as it was found. -/
theorem Wanting.lookup_fetchAll (hwanted : Wanting c start level state wanted)
    (hfetch : fetchAll c hopsLeft wanted state store = (keys, state', store'))
    (hkey : key ∈ state.requested) : state'.found.lookup key = state.found.lookup key := by
  obtain ⟨-, hlookup, -⟩ :=
    Resolution.lookup_fetchAll c hopsLeft hwanted.nodup state store key
  have hnone : fetched? c wanted store key = none := by
    rw [← Option.not_isSome_iff_eq_none, fetched?_isSome, hwanted.wants]
    exact fun hwants => hwants.1.1 hkey
  rw [hfetch, hnone] at hlookup
  exact hlookup

/-- What was read stays as it was read. -/
theorem Searched.read_fetchAll (h : Searched c store start hops level state)
    (hwanted : Wanting c start level state wanted)
    (hfetch : fetchAll c hopsLeft wanted state store = (keys, state', store')) {doc : Document}
    (hread : state.read key = some doc) : state'.read key = some doc := by
  obtain ⟨f, hf, rfl⟩ := Option.map_eq_some_iff.mp hread
  have hrequested := ((h.found key).mp (by rw [hf]; rfl)).1
  rw [Resolution.read, hwanted.lookup_fetchAll hfetch hrequested, hf]
  rfl

/-- A round leaves the hops up to it as they were. -/
theorem Searched.read_eq (h : Searched c store start hops level state)
    (hwanted : Wanting c start level state wanted)
    (hfetch : fetchAll c hopsLeft wanted state store = (keys, state', store')) :
    ∀ m ≤ level, ∀ k, Hops c state.read start m k → state.read k = state'.read k := by
  intro m hm k hhops
  have hrequested := (h.requested k).mpr ⟨m, hm, hhops⟩
  rw [Resolution.read, Resolution.read, hwanted.lookup_fetchAll hfetch hrequested]

/-- A document that was found is a new one or was found before. -/
theorem Wanting.found_cases (hwanted : Wanting c start level state wanted)
    (hfetch : fetchAll c hopsLeft wanted state store = (keys, state', store')) {f : Fetched}
    (hf : state'.found.lookup key = some f) :
    (∃ doc, fetched? c wanted store key = some doc ∧ f = ⟨doc, hopsLeft⟩) ∨
      state.found.lookup key = some f := by
  obtain ⟨-, hlookup, -⟩ :=
    Resolution.lookup_fetchAll c hopsLeft hwanted.nodup state store key
  rw [hfetch, hf] at hlookup
  cases hdoc : fetched? c wanted store key with
  | none => exact .inr (by simpa [hdoc, eq_comm] using hlookup)
  | some doc => exact .inl ⟨doc, rfl, by simpa [hdoc] using hlookup⟩

/-- What was wanted is one hop further, and no nearer. -/
theorem Searched.level_of_wants (h : Searched c store start hops level state)
    (hwanted : Wanting c start level state wanted)
    (hfetch : fetchAll c hopsLeft wanted state store = (keys, state', store'))
    (hkey : Wants wanted key) : Level c state'.read start (level + 1) key := by
  obtain ⟨hnew, hhop⟩ := (hwanted.wants key).mp hkey
  refine (level_congr (h.read_eq hwanted hfetch) (Nat.le_refl _)).mp ⟨hhop, fun m hm hearlier => ?_⟩
  exact hnew ((h.requested key).mpr ⟨m, by omega, hearlier⟩)

/-- **One more round finds what is one hop further.** -/
theorem Searched.round (h : Searched c store start hops level state)
    (hwanted : Wanting c start level state wanted) (hhops : level + 1 + hopsLeft = hops)
    (hfetch : fetchAll c hopsLeft wanted state store = (keys, state', store')) :
    Searched c store start hops (level + 1) state' := by
  have hspec := Resolution.lookup_fetchAll c hopsLeft hwanted.nodup state store
  simp only [hfetch] at hspec
  have hsame := h.read_eq hwanted hfetch
  have hmet : ∀ r, IsMet state.read start r → IsMet state'.read start r := fun r hr =>
    hr.imp_right fun ⟨key, doc, hdoc, hr⟩ => ⟨key, doc, h.read_fetchAll hwanted hfetch hdoc, hr⟩
  constructor
  · intro key
    rw [(hspec key).1, h.requested key]
    constructor
    · rintro (⟨n, hn, hhop⟩ | hkey)
      · exact ⟨n, by omega, (hops_congr hsame (by omega)).mp hhop⟩
      · exact ⟨level + 1, Nat.le_refl _, (h.level_of_wants hwanted hfetch hkey).1⟩
    · rintro ⟨n, hn, hhop⟩
      have hhop := (hops_congr hsame hn).mpr hhop
      by_cases hearlier : ∃ m ≤ level, Hops c state.read start m key
      · exact .inl hearlier
      · obtain rfl : n = level + 1 := by
          by_contra hne
          exact hearlier ⟨n, by omega, hhop⟩
        exact .inr ((hwanted.wants key).mpr ⟨mt (h.requested key).mp hearlier, hhop⟩)
  · intro key
    rw [(hspec key).2.1, (hspec key).1, Option.isSome_or, Option.isSome_map, Bool.or_eq_true,
      fetched?_isSome, h.found key, or_and_right, or_comm]
  · intro key f hf
    rcases hwanted.found_cases hfetch hf with ⟨doc, hdoc, rfl⟩ | hf
    · have hkey := (fetched?_isSome.mp (by rw [hdoc]; rfl)).1
      exact ⟨level + 1, h.level_of_wants hwanted hfetch hkey, hhops⟩
    · obtain ⟨n, hn, hleft⟩ := h.atLevel key f hf
      have hrequested := ((h.found key).mp (by rw [hf]; rfl)).1
      obtain ⟨m, hm, hhop⟩ := (h.requested key).mp hrequested
      have hle : n ≤ level := by
        by_contra hgt
        exact hn.2 m (by omega) hhop
      exact ⟨n, (level_congr hsame (by omega)).mp hn, hleft⟩
  · intro key f hf
    rcases hwanted.found_cases hfetch hf with ⟨doc, hdoc, rfl⟩ | hf
    · obtain ⟨w, hw, hdoc⟩ := Option.bind_eq_some_iff.mp hdoc
      split at hdoc
      · obtain ⟨raw, hraw, rfl⟩ := Option.map_eq_some_iff.mp hdoc
        obtain ⟨r, text, hr, htarget⟩ := hwanted.declared key.1 w hw
        exact ⟨raw, r, text, w.declared, hraw, hmet r hr, htarget, rfl⟩
      · cases hdoc
    · obtain ⟨raw, r, text, declared, hraw, hr, htarget, hdoc⟩ := h.readAs key f hf
      exact ⟨raw, r, text, declared, hraw, hmet r hr, htarget, hdoc⟩

/-- The keys that a round returns are those of the documents at its level. -/
theorem Searched.mem_keys (h : Searched c store start hops level state)
    (hwanted : Wanting c start level state wanted)
    (hfetch : fetchAll c hopsLeft wanted state store = (keys, state', store')) :
    key ∈ keys ↔
      Level c state'.read start (level + 1) key ∧ (store.recordAt? key).isSome := by
  obtain ⟨-, -, hkeys⟩ := Resolution.lookup_fetchAll c hopsLeft hwanted.nodup state store key
  rw [hfetch] at hkeys
  rw [hkeys, fetched?_isSome, hwanted.wants,
    ← level_congr (h.read_eq hwanted hfetch) (Nat.le_refl _)]
  refine and_congr_left fun _ => ⟨fun ⟨hnew, hhop⟩ => ⟨hhop, fun m hm hearlier => ?_⟩,
    fun ⟨hhop, hfirst⟩ => ⟨fun hrequested => ?_, hhop⟩⟩
  · exact hnew ((h.requested key).mpr ⟨m, by omega, hearlier⟩)
  · obtain ⟨n, hn, hearlier⟩ := (h.requested key).mp hrequested
    exact hfirst n (by omega) hearlier

/-- The references of the documents under some keys. -/
theorem mem_referencesOf {r : Reference} :
    r ∈ state.referencesOf keys ↔ ∃ key ∈ keys, ∃ doc, state.read key = some doc ∧
      r ∈ doc.references := by
  unfold referencesOf Resolution.read
  simp only [List.mem_flatMap]
  refine exists_congr fun key => and_congr_right fun _ => ?_
  cases state.found.lookup key <;> simp

/-- References that lead to what is one hop further want it. -/
theorem wanting_of_gather {references : List Reference}
    (hgather : state.gather c references [] = .ok wanted)
    (hreferences : ∀ key, key ∉ state.requested →
      ((∃ r ∈ references, c.locatedKey? r = some key) ↔
        Hops c state.read start (level + 1) key))
    (hmet : ∀ r ∈ references, IsMet state.read start r) :
    Wanting c start level state wanted := by
  rw [gather_eq] at hgather
  have hwanted : references.foldl (state.want c) [] = wanted := by
    cases hlocate : references.mapM c.locate with
    | error cause => simp [hlocate, Except.map] at hgather
    | ok targets => simpa [hlocate, Except.map] using hgather
  subst hwanted
  refine ⟨(sorted_foldl Entries.sorted_nil).nodup, fun key => ?_, fun collection w hw => ?_⟩
  · rw [wants_foldl, or_iff_right (not_wants_nil key)]
    exact and_congr_right (hreferences key)
  · have hdeclared : ((references.foldl (state.want c) []).get? collection).map (·.declared) =
        (Option.map (·.declared) (none : Option Wanted)).or
          (references.findSome? (state.expected? c collection)) :=
      declared_foldl
    rw [hw, Option.map_some, Option.map_none, Option.none_or] at hdeclared
    obtain ⟨r, hr, hexpected⟩ := List.exists_of_findSome?_eq_some hdeclared.symm
    obtain ⟨text, htarget⟩ := target?_of_expected? hexpected
    exact ⟨r, text, hmet r hr, htarget⟩

/-- **The references of the documents at a level want what is one hop further.** -/
theorem Searched.wanting (h : Searched c store start hops (level + 1) state)
    (hkeys : ∀ key, key ∈ keys ↔
      Level c state.read start (level + 1) key ∧ (store.recordAt? key).isSome)
    (hgather : state.gather c (state.referencesOf keys) [] = .ok wanted) :
    Wanting c start (level + 1) state wanted := by
  refine wanting_of_gather hgather (fun key hnew => ⟨fun ⟨r, hr, hkey⟩ => ?_, fun hhop => ?_⟩)
    fun r hr => ?_
  · obtain ⟨before, hbefore, doc, hdoc, hr⟩ := mem_referencesOf.mp hr
    exact .next ((hkeys before).mp hbefore).1.1 hdoc hr hkey
  · cases hhop with
    | @next _ before _ doc r hbefore hdoc hr hkey =>
      refine ⟨r, mem_referencesOf.mpr ⟨before, ?_, doc, hdoc, hr⟩, hkey⟩
      -- A nearer document would have led to the key before.
      obtain ⟨n, hn, hlevel⟩ := hbefore.exists_level
      have hn' : n = level + 1 := by
        by_contra hne
        exact hnew ((h.requested key).mpr ⟨n + 1, by omega, .next hlevel.1 hdoc hr hkey⟩)
      obtain ⟨f, hf, -⟩ := Option.map_eq_some_iff.mp hdoc
      exact (hkeys before).mpr ⟨hn' ▸ hlevel, ((h.found before).mp (by rw [hf]; rfl)).2⟩
  · obtain ⟨before, -, doc, hdoc, hmem⟩ := mem_referencesOf.mp hr
    exact .inr ⟨before, doc, hdoc, hmem⟩

/-- Where nothing is wanted any more, everything that can be reached was asked for. -/
theorem Searched.mem_requested (h : Searched c store start hops level state)
    (hwanted : Wanting c start level state wanted) (hnone : ∀ key, ¬ Wants wanted key) {n : Nat}
    (hhop : Hops c state.read start n key) : key ∈ state.requested := by
  have hnext : ∀ m ≤ level, ∀ k, Hops c state.read start (m + 1) k → k ∈ state.requested := by
    intro m hm k hk
    by_contra hnew
    by_cases hlast : m = level
    · exact hnone k ((hwanted.wants k).mpr ⟨hnew, hlast ▸ hk⟩)
    · exact hnew ((h.requested k).mpr ⟨m + 1, by omega, hk⟩)
  induction hhop with
  | first hr hkey => exact hnext 0 (Nat.zero_le _) _ (.first hr hkey)
  | next _ hdoc hr hkey ih =>
    obtain ⟨m, hm, hbefore⟩ := (h.requested _).mp ih
    exact hnext m hm _ (.next hbefore hdoc hr hkey)

/-- What is known of a search depends on the records alone. -/
theorem Searched.of_documents (h : Searched c store start hops level state)
    (hstore : ∀ name, store'.documents name = store.documents name) :
    Searched c store' start hops level state := by
  have hrecord : ∀ key, store'.recordAt? key = store.recordAt? key := fun key => by
    unfold Store.recordAt?
    rw [hstore]
  refine ⟨h.requested, fun key => ?_, h.atLevel, fun key f hf => ?_⟩
  · rw [hrecord]
    exact h.found key
  · unfold IsReadAs
    rw [hrecord]
    exact h.readAs key f hf

/-- **The rounds find everything within their number of hops.** -/
theorem Searched.rounds {final : Resolution} (h : Searched c store start hops level state)
    (hwanted : Wanting c start level state wanted) (hhops : level + hopsLeft = hops)
    (hrounds : (rounds c hopsLeft wanted state store).1 = .ok final) :
    Searched c store start hops hops final := by
  induction hopsLeft generalizing level wanted state store with
  | zero =>
    cases hrounds
    obtain rfl : level = hops := hhops
    exact h
  | succ hopsLeft ih =>
    rw [Resolution.rounds] at hrounds
    split at hrounds
    · rename_i hempty
      cases hrounds
      obtain rfl := List.isEmpty_iff.mp hempty
      refine ⟨fun key => ⟨fun hkey => ?_, fun ⟨n, _, hhop⟩ => ?_⟩, h.found, h.atLevel, h.readAs⟩
      · obtain ⟨n, hn, hhop⟩ := (h.requested key).mp hkey
        exact ⟨n, by omega, hhop⟩
      · exact h.mem_requested hwanted not_wants_nil hhop
    · have hdocuments := fetchAll_collections c hopsLeft wanted state store
      rcases hfetch : fetchAll c hopsLeft wanted state store with ⟨keys, state', store'⟩
      simp only [hfetch] at hrounds hdocuments
      have hround := h.round hwanted (by omega) hfetch
      have hstore : ∀ name, store'.documents name = store.documents name := fun name => by
        unfold Store.documents
        rw [hdocuments]
      split at hrounds
      · rename_i hlast
        cases hrounds
        obtain rfl : level + 1 = hops := by omega
        exact hround
      · split at hrounds
        · rename_i next hgather
          have hnext := hround.wanting (fun key => h.mem_keys hwanted hfetch) hgather
          have hfinal := ih (hround.of_documents hstore) hnext (by omega) hrounds
          exact hfinal.of_documents fun name => (hstore name).symm
        · cases hrounds

/-- **Everything within some hops of the given references is found.** -/
theorem searched_fetchFrom (h : (fetchFrom c hops start store).1 = .ok state) :
    Searched c store start hops hops state := by
  unfold fetchFrom at h
  split at h
  · rename_i wanted hgather
    have hfirst : Wanting c start 0 empty wanted := by
      refine wanting_of_gather hgather (fun key _ => ⟨fun ⟨r, hr, hkey⟩ => .first hr hkey, ?_⟩)
        fun r hr => .inl hr
      intro hhop
      cases hhop with
      | first hr hkey => exact ⟨_, hr, hkey⟩
      | next hbefore => exact absurd hbefore.pos (Nat.lt_irrefl 0)
    exact (searched_empty c store start hops).rounds hfirst (Nat.zero_add hops) h
  · cases h

end

end Resolution

end DocumentMapper
