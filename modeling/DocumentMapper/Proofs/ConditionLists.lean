import DocumentMapper.Filter.Expression
import DocumentMapper.Proofs.BuiltTypes
import DocumentMapper.Proofs.Drafts
import DocumentMapper.Proofs.Runs

/-!
# Lists of conditions

A list of conditions is compiled to one filter, and each of its conditions by itself is a filter
too. A document meets the one exactly when it meets the others, in the following sense.

* Two conditions that are merged on one path have to be operators on both sides. An object without
  operators is compared with what stands at the path when it is compiled by itself, but is lost
  beside a map of operators; and options without a pattern say nothing by themselves, but come to
  belong to a pattern beside them.
* A raw document is written over the conditions before it. It adds what it says, and takes away
  what earlier conditions say on the same paths.

Whether a document meets a filter is told wherever all filters are answered.

## Main results

* `compileEntries_collects`: compiling a list collects the filters of its conditions;
* `compile_conjoins`: a list of conditions says what its conditions say one by one;
* `compile_raw_conjoins`, `compile_raw_adds`: with a raw document among them it says what the raw
  document says, too, wherever that stands.
-/

namespace DocumentMapper

/-- The filters of single conditions, compiled one after the other. -/
def compileEach (c : Catalog) (t : DocumentType) (conditions : Conditions) :
    Drawing (List Object) :=
  conditions.mapM fun e => compile c t [e]

variable {c : Catalog} {t : DocumentType} {s s' : Supply}

/-! ### Single steps -/

theorem compileEach_cons_eq_ok {e : String × Value} {rest : Conditions} {filters : List Object} :
    (compileEach c t (e :: rest)).runFrom s = (.ok filters, s') ↔ ∃ filter u others,
      (compile c t [e]).runFrom s = (.ok filter, u) ∧
        (compileEach c t rest).runFrom u = (.ok others, s') ∧ filters = filter :: others := by
  simp only [compileEach, List.mapM_cons, Drawing.runFrom_bind_eq_ok]
  constructor
  · rintro ⟨filter, u, hfirst, others, u', hrest, hpure⟩
    obtain ⟨rfl, rfl⟩ : filters = filter :: others ∧ s' = u' := by
      simpa [eq_comm] using hpure
    exact ⟨filter, u, others, hfirst, hrest, rfl⟩
  · rintro ⟨filter, u, others, hfirst, hrest, rfl⟩
    exact ⟨filter, u, hfirst, others, s', hrest, rfl⟩

theorem compileEach_append_eq_ok {conditions more : Conditions} {filters : List Object} :
    (compileEach c t (conditions ++ more)).runFrom s = (.ok filters, s') ↔ ∃ first u others,
      (compileEach c t conditions).runFrom s = (.ok first, u) ∧
        (compileEach c t more).runFrom u = (.ok others, s') ∧ filters = first ++ others := by
  simp only [compileEach, List.mapM_append, Drawing.runFrom_bind_eq_ok]
  constructor
  · rintro ⟨first, u, hfirst, others, u', hrest, hpure⟩
    obtain ⟨rfl, rfl⟩ : filters = first ++ others ∧ s' = u' := by
      simpa [eq_comm] using hpure
    exact ⟨first, u, others, hfirst, hrest, rfl⟩
  · rintro ⟨first, u, others, hfirst, hrest, rfl⟩
    exact ⟨first, u, hfirst, others, s', hrest, rfl⟩

theorem compile_eq_ok {conditions : Conditions} {q : Object} :
    (compile c t conditions).runFrom s = (.ok q, s') ↔ ∃ d,
      (compileEntries c conditions t ⟨[], []⟩).runFrom s = (.ok d, s') ∧ d.finish = q := by
  simp only [compile, Drawing.runFrom_bind_eq_ok]
  constructor
  · rintro ⟨d, u, hrun, hpure⟩
    obtain ⟨rfl, rfl⟩ : d.finish = q ∧ u = s' := by simpa using hpure
    exact ⟨d, hrun, rfl⟩
  · rintro ⟨d, hrun, rfl⟩
    exact ⟨d, s', hrun, rfl⟩

/-- Compiled by itself, a condition is a filter with one entry. -/
theorem compile_single_eq_ok {key : String} {v : Value} (hkey : key ≠ rawKey) {q : Object} :
    (compile c t [(key, v)]).runFrom s = (.ok q, s') ↔ ∃ path j,
      (compileCondition c t key v fun f => v.itemMatch c f).runFrom s = (.ok (path, j), s') ∧
        q = [(path, j)] := by
  simp only [compile_eq_ok, compileEntries, if_neg hkey, Drawing.runFrom_bind_eq_ok]
  constructor
  · rintro ⟨d, ⟨⟨path, j⟩, u, hcondition, hpure⟩, rfl⟩
    obtain ⟨rfl, rfl⟩ : Draft.add ⟨[], []⟩ path j = d ∧ u = s' := by simpa using hpure
    exact ⟨path, j, hcondition, rfl⟩
  · rintro ⟨path, j, hcondition, rfl⟩
    exact ⟨_, ⟨(path, j), s', hcondition, rfl⟩, rfl⟩

/-- Compiling goes on with a draft that has one condition more. -/
theorem compileEntries_cons_eq_ok {key : String} {v : Value} (hkey : key ≠ rawKey)
    {rest : Conditions} {d d' : Draft} :
    (compileEntries c ((key, v) :: rest) t d).runFrom s = (.ok d', s') ↔ ∃ path j u,
      (compile c t [(key, v)]).runFrom s = (.ok [(path, j)], u) ∧
        (compileEntries c rest t (d.add path j)).runFrom u = (.ok d', s') := by
  simp only [compile_single_eq_ok hkey, compileEntries, if_neg hkey, Drawing.runFrom_bind_eq_ok]
  constructor
  · rintro ⟨⟨path, j⟩, u, hcondition, hrest⟩
    exact ⟨path, j, u, ⟨path, j, hcondition, rfl⟩, hrest⟩
  · rintro ⟨path, j, u, ⟨path', j', hcondition, heq⟩, hrest⟩
    obtain ⟨rfl, rfl⟩ : path = path' ∧ j = j' := by simpa using heq
    exact ⟨(path, j), u, hcondition, hrest⟩

/-- Compiling goes on with a draft over which a raw document was written. -/
theorem compileEntries_raw_eq_ok {v : Value} {rest : Conditions} {d d' : Draft} :
    (compileEntries c ((rawKey, v) :: rest) t d).runFrom s = (.ok d', s') ↔ ∃ raw u,
      (rawDocument rawKey v).runFrom s = (.ok raw, u) ∧
        (compileEntries c rest t { d with query := d.query.insertAll raw }).runFrom u =
          (.ok d', s') := by
  simp only [compileEntries, if_true, Drawing.runFrom_bind_eq_ok]

theorem compileEntries_append {conditions more : Conditions} {d : Draft} :
    compileEntries c (conditions ++ more) t d =
      compileEntries c conditions t d >>= compileEntries c more t := by
  induction conditions generalizing d with
  | nil => simp [compileEntries]
  | cons e rest ih =>
    obtain ⟨key, v⟩ := e
    simp only [List.cons_append, compileEntries]
    split
    · simp only [bind_assoc, ih]
    · simp only [bind_assoc, ih]

/-- **Compiling conditions collects the filters of the single conditions.** -/
theorem compileEntries_collects {conditions : Conditions} (hraw : ∀ e ∈ conditions, e.1 ≠ rawKey)
    {d d' : Draft} (h : (compileEntries c conditions t d).runFrom s = (.ok d', s')) :
    ∃ singles, (compileEach c t conditions).runFrom s = (.ok singles, s') ∧
      ∀ filters, d.Collects filters → d'.Collects (filters ++ singles) := by
  induction conditions generalizing s d with
  | nil =>
    obtain ⟨rfl, rfl⟩ : d = d' ∧ s = s' := by simpa [compileEntries] using h
    exact ⟨[], rfl, fun filters hd => by simpa using hd⟩
  | cons e rest ih =>
    obtain ⟨key, v⟩ := e
    obtain ⟨hkey, hrest⟩ := List.forall_mem_cons.mp hraw
    obtain ⟨path, j, u, hfirst, hthen⟩ := (compileEntries_cons_eq_ok hkey).mp h
    obtain ⟨singles, hsingles, hcollects⟩ := ih hrest hthen
    refine ⟨[(path, j)] :: singles, compileEach_cons_eq_ok.mpr ⟨_, u, _, hfirst, hsingles, rfl⟩,
      fun filters hd => ?_⟩
    have hall := hcollects _ (hd.add path j)
    rwa [List.append_assoc] at hall

/-! ### What a list of conditions says -/

/-- Filters that can be put together: none has a key twice, and where they meet on a path their
conditions can stand together. -/
structure Combinable (filters : List Object) : Prop where
  keys : ∀ filter ∈ filters, Object.KeysOnce filter
  compatible : filters.Pairwise Object.Compatible

theorem Combinable.perm {filters others : List Object} (h : Combinable filters)
    (hperm : filters.Perm others) : Combinable others where
  keys := fun filter hfilter => h.keys filter (hperm.mem_iff.mpr hfilter)
  compatible := h.compatible.perm hperm Object.Compatible.symm

theorem Combinable.of_isSelfContained {filters : List Object}
    (hkeys : ∀ filter ∈ filters, Object.KeysOnce filter)
    (h : ∀ filter ∈ filters, ∀ e ∈ filter, e.2.isSelfContained = true) : Combinable filters where
  keys := hkeys
  compatible := by
    refine List.pairwise_of_forall_mem_list fun filter hfilter other hother path j j' hj hj' => ?_
    exact Json.compatible_of_isSelfContained (h filter hfilter _ (Entries.mem_of_get? hj))
      (h other hother _ (Entries.mem_of_get? hj'))

/-- A filter says what other filters say together: wherever all are answered, a document meets the
one exactly when it meets every one of the others. -/
def Object.Conjoins (filter : Object) (parts : List Object) : Prop :=
  ∀ (doc : Object) (b : Bool), doc.meets filter = .ok b →
    (∀ part ∈ parts, ∃ b', doc.meets part = .ok b') →
    (b = true ↔ ∀ part ∈ parts, doc.meets part = .ok true)

theorem Object.Conjoins.perm {filter : Object} {parts others : List Object}
    (h : filter.Conjoins parts) (hperm : parts.Perm others) : filter.Conjoins others := by
  intro doc b hanswer hanswered
  simp only [← hperm.mem_iff] at hanswered ⊢
  exact h doc b hanswer hanswered

theorem Draft.Collects.conjoins {d : Draft} {filters : List Object} (h : d.Collects filters)
    (hfilters : Combinable filters) : d.finish.Conjoins filters :=
  fun _ _ hanswer hanswered =>
    h.meets_finish_iff hfilters.keys hfilters.compatible hanswer hanswered

/-- **A list of conditions says what its conditions say one by one**, if those that are merged can
stand on one path. -/
theorem compile_conjoins {conditions : Conditions} (hraw : ∀ e ∈ conditions, e.1 ≠ rawKey)
    {q : Object} (hrun : (compile c t conditions).runFrom s = (.ok q, s')) :
    ∃ singles, (compileEach c t conditions).runFrom s = (.ok singles, s') ∧
      (Combinable singles → q.Conjoins singles) := by
  obtain ⟨d, hd, rfl⟩ := compile_eq_ok.mp hrun
  obtain ⟨singles, hsingles, hcollects⟩ := compileEntries_collects hraw hd
  exact ⟨singles, hsingles, (hcollects [] .nil).conjoins⟩

/-- Bags hold anything. -/
def bagType : DocumentType where
  name := "Bag"
  className := "Bag"
  collection := some "bags"
  fields := [{ Field.ofKind "id" (.scalar .objectId) with storageName := idKey },
    .ofKind "meta" (.scalar .any)]
  primaryKey := some "id"
  isDynamic := false
  allowsInheritance := false
  superclass := none

theorem bagType_built : bagType.Built := by
  let plain : Declaration := (Declaration.document "Bag").inCollection "bags"
  exact ⟨plain.withField (.ofKind "meta" (.scalar .any)), rfl⟩

/-- A filter for a bag. -/
def bagWith (condition : Json) : Object :=
  [("meta", condition)]

/-- A number in a range. -/
def inRange : Conditions :=
  [("meta__gte", .int 1), ("meta__lte", .int 9), ("meta", .int 5)]

theorem combinable_inRange :
    Combinable [bagWith (.single "$gte" (.ofInt64 1)), bagWith (.single "$lte" (.ofInt64 9)),
      bagWith (.ofInt64 5)] :=
  .of_isSelfContained (by decide) (by decide)

theorem compile_conjoins_inRange : ∃ q singles,
    (compile .empty bagType inRange).runFrom .fresh = (.ok q, .fresh) ∧
      (compileEach .empty bagType inRange).runFrom .fresh = (.ok singles, .fresh) ∧
      q.Conjoins singles ∧ (bagWith (.ofInt64 5)).meets q = .ok true ∧
      ∀ single ∈ singles, (bagWith (.ofInt64 5)).meets single = .ok true := by
  have hrun : (compile .empty bagType inRange).runFrom .fresh =
      (.ok [("$and", .array [.object (bagWith (.object [("$gte", .ofInt64 1),
        ("$lte", .ofInt64 9)])), .object (bagWith (.ofInt64 5))])], .fresh) := rfl
  obtain ⟨singles, hsingles, hconjoins⟩ := compile_conjoins (by decide) hrun
  have heach : (compileEach .empty bagType inRange).runFrom .fresh =
      (.ok [bagWith (.single "$gte" (.ofInt64 1)), bagWith (.single "$lte" (.ofInt64 9)),
        bagWith (.ofInt64 5)], .fresh) := rfl
  obtain rfl := Except.ok.inj (Prod.mk.inj (hsingles.symm.trans heach)).1
  refine ⟨_, _, hrun, heach, hconjoins combinable_inRange, rfl, ?_⟩
  refine (hconjoins combinable_inRange (bagWith (.ofInt64 5)) true rfl ?_).mp rfl
  simp only [List.forall_mem_cons]
  exact ⟨⟨true, rfl⟩, ⟨true, rfl⟩, ⟨true, rfl⟩, fun _ h => absurd h List.not_mem_nil⟩

/-- An empty object is lost beside an operator, and options that say nothing by themselves change
the pattern beside them. -/
theorem spoiled_not_conjoined : bagType.Built ∧
    (∃ q singles,
      (compile .empty bagType [("meta", .dict []), ("meta__exists", .bool true)]).runFrom .fresh =
        (.ok q, .fresh) ∧
      (compileEach .empty bagType [("meta", .dict []), ("meta__exists", .bool true)]).runFrom
        .fresh = (.ok singles, .fresh) ∧ ¬ q.Conjoins singles) ∧
    ∃ q singles,
      (compile .empty bagType [("meta", .dict [("$options", .string "i")]),
        ("meta__contains", .string "a")]).runFrom .fresh = (.ok q, .fresh) ∧
      (compileEach .empty bagType [("meta", .dict [("$options", .string "i")]),
        ("meta__contains", .string "a")]).runFrom .fresh = (.ok singles, .fresh) ∧
      ¬ q.Conjoins singles := by
  refine ⟨bagType_built, ⟨bagWith (.single "$exists" (.bool true)),
    [bagWith (.object []), bagWith (.single "$exists" (.bool true))], rfl, rfl, fun h => ?_⟩,
    bagWith (.object [("$options", .string "i"), ("$regex", .string "a")]),
    [bagWith (.single "$options" (.string "i")), bagWith (.single "$regex" (.string "a"))],
    rfl, rfl, fun h => ?_⟩
  · have hempty : (bagWith (.single "k" (.ofInt64 1))).meets (bagWith (.object [])) =
        .ok false := rfl
    have hexists : (bagWith (.single "k" (.ofInt64 1))).meets
        (bagWith (.single "$exists" (.bool true))) = .ok true := rfl
    have hall := (h _ true hexists (by simp [hempty, hexists])).mp rfl
    rw [hall _ List.mem_cons_self] at hempty
    cases hempty
  · have hpattern : (bagWith (.string "A")).meets (bagWith (.single "$regex" (.string "a"))) =
        .ok false := rfl
    have hoptions : (bagWith (.string "A")).meets (bagWith (.single "$options" (.string "i"))) =
        .ok true := rfl
    have hboth : (bagWith (.string "A")).meets
        (bagWith (.object [("$options", .string "i"), ("$regex", .string "a")])) = .ok true := rfl
    have hall := (h _ true hboth (by simp [hpattern, hoptions])).mp rfl
    rw [hall _ (List.mem_cons_of_mem _ List.mem_cons_self)] at hpattern
    cases hpattern

/-! ### Raw documents among conditions -/

/-- The filters of the conditions before a raw document, the document, and the filters of the
conditions behind it. -/
def compileAround (c : Catalog) (t : DocumentType) (before : Conditions) (v : Value)
    (after : Conditions) : Drawing (List Object × Object × List Object) := do
  let earlier ← compileEach c t before
  let raw ← rawDocument rawKey v
  return (earlier, raw, ← compileEach c t after)

theorem compileAround_eq_ok {before after : Conditions} {v : Value} {earlier later : List Object}
    {raw : Object} :
    (compileAround c t before v after).runFrom s = (.ok (earlier, raw, later), s') ↔ ∃ u u',
      (compileEach c t before).runFrom s = (.ok earlier, u) ∧
        (rawDocument rawKey v).runFrom u = (.ok raw, u') ∧
        (compileEach c t after).runFrom u' = (.ok later, s') := by
  simp only [compileAround, Drawing.runFrom_bind_eq_ok]
  constructor
  · rintro ⟨_, u, hearlier, _, u', hraw, _, u'', hlater, hpure⟩
    obtain ⟨⟨rfl, rfl, rfl⟩, rfl⟩ : (_ = earlier ∧ _ = raw ∧ _ = later) ∧ u'' = s' := by
      simpa using hpure
    exact ⟨u, u', hearlier, hraw, hlater⟩
  · rintro ⟨u, u', hearlier, hraw, hlater⟩
    exact ⟨earlier, u, hearlier, raw, u', hraw, later, s', hlater, rfl⟩

/-- A raw document among conditions is one more filter, if its paths are new where it stands. -/
theorem compile_raw_conjoins {before after : Conditions} (hbefore : ∀ e ∈ before, e.1 ≠ rawKey)
    (hafter : ∀ e ∈ after, e.1 ≠ rawKey) {v : Value} {q : Object}
    (hrun : (compile c t (before ++ (rawKey, v) :: after)).runFrom s = (.ok q, s')) :
    ∃ earlier raw later,
      (compileAround c t before v after).runFrom s = (.ok (earlier, raw, later), s') ∧
      (Combinable (raw :: (earlier ++ later)) → (∀ e ∈ raw, conditionsAt earlier e.1 = []) →
        q.Conjoins (raw :: (earlier ++ later))) := by
  obtain ⟨d, hd, rfl⟩ := compile_eq_ok.mp hrun
  rw [compileEntries_append, Drawing.runFrom_bind_eq_ok] at hd
  obtain ⟨first, u, hfirst, hthen⟩ := hd
  obtain ⟨raw, u', hraw, hlast⟩ := compileEntries_raw_eq_ok.mp hthen
  obtain ⟨earlier, hearlier, hcollects⟩ := compileEntries_collects hbefore hfirst
  obtain ⟨later, hlater, hcollectsLater⟩ := compileEntries_collects hafter hlast
  refine ⟨earlier, raw, later, compileAround_eq_ok.mpr ⟨u, u', hearlier, hraw, hlater⟩,
    fun hcombinable hnew => ?_⟩
  have hperm : (earlier ++ [raw] ++ later).Perm (raw :: (earlier ++ later)) := by
    rw [List.append_assoc]
    exact List.perm_middle
  have hall := hcollectsLater _
    ((hcollects [] .nil).insertAll (hcombinable.keys raw List.mem_cons_self).1 hnew)
  exact (hall.conjoins (hcombinable.perm hperm.symm)).perm hperm

/-- A raw document that draws nothing leaves the filters beside it as they are without it. -/
theorem compileEach_of_around {before after : Conditions} {v : Value}
    {earlier later : List Object} {raw raw' : Object} (hyields : (rawDocument rawKey v).Yields raw)
    (h : (compileAround c t before v after).runFrom s = (.ok (earlier, raw', later), s')) :
    raw' = raw ∧ (compileEach c t (before ++ after)).runFrom s = (.ok (earlier ++ later), s') := by
  obtain ⟨u, u', hearlier, hraw, hlater⟩ := compileAround_eq_ok.mp h
  obtain ⟨rfl, rfl⟩ : raw = raw' ∧ u = u' := by
    rw [hyields u] at hraw
    simpa using hraw
  exact ⟨rfl, compileEach_append_eq_ok.mpr ⟨earlier, u, later, hearlier, hlater, rfl⟩⟩

/-- Conditions and a raw document that are joined by AND are one list. -/
theorem toQuery_leaf_and_raw {before : Conditions} (hbefore : ∀ e ∈ before, e.1 ≠ rawKey)
    (v : Value) :
    Filter.toQuery c t ((Filter.leaf before).and (.leaf [(rawKey, v)])) =
      compile c t (before ++ [(rawKey, v)]) := by
  cases before with
  | nil => rfl
  | cons e rest =>
    have hnew : Entries.get? (e :: rest) rawKey = none := by
      rw [Entries.get?_eq_none_iff]
      intro hmem
      obtain ⟨e', he', heq⟩ := List.mem_map.mp hmem
      exact hbefore e' he' heq
    have hmerged : Filter.mergeLeaves? [] [.leaf (e :: rest), .leaf [(rawKey, v)]] =
        some (e :: rest ++ [(rawKey, v)]) := by
      simp [Filter.mergeLeaves?, hnew, Entries.contains]
    simp only [Filter.toQuery, Filter.and, Filter.join, Filter.isEmpty, List.isEmpty_cons,
      Filter.childrenFor, List.singleton_append, Filter.simplify, Filter.simplifyAll,
      Filter.simplifyNode, Bool.false_eq_true, if_false, hmerged, Filter.compileNode]

/-- **A raw document adds what it says**, if no condition before it has one of its paths. Where it
stands does not matter if it has no path of the other conditions at all, and a filter that is joined
with it is put before it. -/
theorem compile_raw_adds {before after : Conditions} (hbefore : ∀ e ∈ before, e.1 ≠ rawKey)
    (hafter : ∀ e ∈ after, e.1 ≠ rawKey) {v : Value} {q : Object}
    (hrun : (compile c t (before ++ (rawKey, v) :: after)).runFrom s = (.ok q, s')) :
    (∃ earlier raw later,
      (compileAround c t before v after).runFrom s = (.ok (earlier, raw, later), s') ∧
      (Combinable (raw :: (earlier ++ later)) →
        ((∀ e ∈ raw, conditionsAt earlier e.1 = []) → q.Conjoins (raw :: (earlier ++ later))) ∧
        ∀ (before' after' : Conditions) (q' : Object) (s'' : Supply),
          before' ++ after' = before ++ after → (rawDocument rawKey v).Yields raw →
          (∀ e ∈ raw, conditionsAt (earlier ++ later) e.1 = []) →
          (compile c t (before' ++ (rawKey, v) :: after')).runFrom s = (.ok q', s'') →
            q'.Conjoins (raw :: (earlier ++ later)))) ∧
      Filter.toQuery c t ((Filter.leaf before).and (.leaf [(rawKey, v)])) =
        compile c t (before ++ [(rawKey, v)]) := by
  refine ⟨?_, toQuery_leaf_and_raw hbefore v⟩
  obtain ⟨earlier, raw, later, haround, hconjoins⟩ := compile_raw_conjoins hbefore hafter hrun
  refine ⟨earlier, raw, later, haround, fun hcombinable => ⟨hconjoins hcombinable, ?_⟩⟩
  intro before' after' q' s'' hsame hyields hnew hrun'
  have hothers : ∀ e ∈ before' ++ after', e.1 ≠ rawKey := by
    rw [hsame]
    exact List.forall_mem_append.mpr ⟨hbefore, hafter⟩
  obtain ⟨hbefore', hafter'⟩ := List.forall_mem_append.mp hothers
  obtain ⟨earlier', raw', later', haround', hconjoins'⟩ :=
    compile_raw_conjoins hbefore' hafter' hrun'
  obtain ⟨rfl, heach'⟩ := compileEach_of_around hyields haround'
  have hfilters : earlier' ++ later' = earlier ++ later := by
    rw [hsame, (compileEach_of_around hyields haround).2] at heach'
    exact (Except.ok.inj (Prod.mk.inj heach').1).symm
  rw [← hfilters] at hcombinable hnew ⊢
  refine hconjoins' hcombinable fun e he => ?_
  have hempty := hnew e he
  unfold conditionsAt at hempty ⊢
  rw [List.filterMap_append] at hempty
  exact (List.append_eq_nil_iff.mp hempty).1

/-- A raw document that asks for a key. -/
def rawId : Value :=
  .dict [(idKey, .string "a")]

theorem combinable_rawId :
    Combinable [[(idKey, .string "a")], bagWith (.single "$gte" (.ofInt64 1)),
      bagWith (.single "$lte" (.ofInt64 9))] :=
  .of_isSelfContained (by decide) (by decide)

theorem compile_raw_adds_rawId : ∃ q q' : Object,
    (compile .empty bagType [("meta__gte", .int 1), (rawKey, rawId), ("meta__lte", .int 9)]).runFrom
      .fresh = (.ok q, .fresh) ∧
    (compile .empty bagType [(rawKey, rawId), ("meta__gte", .int 1), ("meta__lte", .int 9)]).runFrom
      .fresh = (.ok q', .fresh) ∧
    q.Conjoins [[(idKey, .string "a")], bagWith (.single "$gte" (.ofInt64 1)),
      bagWith (.single "$lte" (.ofInt64 9))] ∧
    q'.Conjoins [[(idKey, .string "a")], bagWith (.single "$gte" (.ofInt64 1)),
      bagWith (.single "$lte" (.ofInt64 9))] := by
  have hrun : (compile .empty bagType
      ([("meta__gte", .int 1)] ++ (rawKey, rawId) :: [("meta__lte", .int 9)])).runFrom .fresh =
      (.ok [("meta", .object [("$gte", .ofInt64 1), ("$lte", .ofInt64 9)]),
        (idKey, .string "a")], .fresh) := rfl
  have hrun' : (compile .empty bagType
      ([] ++ (rawKey, rawId) :: [("meta__gte", .int 1), ("meta__lte", .int 9)])).runFrom .fresh =
      (.ok [(idKey, .string "a"),
        ("meta", .object [("$gte", .ofInt64 1), ("$lte", .ofInt64 9)])], .fresh) := rfl
  have haround : (compileAround .empty bagType [("meta__gte", .int 1)] rawId
      [("meta__lte", .int 9)]).runFrom .fresh =
      (.ok ([bagWith (.single "$gte" (.ofInt64 1))], [(idKey, .string "a")],
        [bagWith (.single "$lte" (.ofInt64 9))]), .fresh) := rfl
  obtain ⟨⟨earlier, raw, later, haround', hadds⟩, -⟩ :=
    compile_raw_adds (by decide) (by decide) hrun
  obtain ⟨rfl, rfl, rfl⟩ : _ = earlier ∧ _ = raw ∧ _ = later := by
    simpa using (Prod.mk.inj (haround.symm.trans haround')).1
  obtain ⟨hconjoins, hanywhere⟩ := hadds combinable_rawId
  refine ⟨_, _, hrun, hrun', hconjoins (by decide), ?_⟩
  exact hanywhere [] _ _ _ rfl (fun _ => rfl) (by decide) hrun'

/-- A raw document takes away the condition before it on the same path, whether it is given in one
list or joined by AND. Behind the raw document the condition counts. -/
theorem overwritten_not_conjoined : bagType.Built ∧ ∃ q q' single : Object,
    (compile .empty bagType [("meta", .int 5),
      (rawKey, .dict [("meta", .dict [("$gt", .int 1)])])]).runFrom .fresh = (.ok q, .fresh) ∧
    (Filter.toQuery .empty bagType ((Filter.leaf [("meta", .int 5)]).and
      (.leaf [(rawKey, .dict [("meta", .dict [("$gt", .int 1)])])]))).runFrom .fresh =
        (.ok q, .fresh) ∧
    (compile .empty bagType [(rawKey, .dict [("meta", .dict [("$gt", .int 1)])]),
      ("meta", .int 5)]).runFrom .fresh = (.ok q', .fresh) ∧
    (compile .empty bagType [("meta", .int 5)]).runFrom .fresh = (.ok single, .fresh) ∧
    (bagWith (.ofInt64 7)).meets q = .ok true ∧ (bagWith (.ofInt64 7)).meets q' = .ok false ∧
    (bagWith (.ofInt64 7)).meets single = .ok false := by
  refine ⟨bagType_built, bagWith (.single "$gt" (.ofInt64 1)), [("$and", .array
    [.object (bagWith (.single "$gt" (.ofInt64 1))), .object (bagWith (.ofInt64 5))])],
    bagWith (.ofInt64 5), rfl, rfl, rfl, rfl, rfl, rfl, rfl⟩

end DocumentMapper
