import GraphQuery.Proofs.Closure.Passage
import GraphQuery.Proofs.Names.Plan
import GraphQuery.Proofs.Store.Numbered

/-!
# Rows that are led on

What a plan holds besides its source may be limited in any way: it is only probed. So a source that
shows plain rows makes a plan that shows plain rows, at the nodes that the operator relates to those
of the source, and what was bound at the source is still bound there, unless it is bound anew.
-/

namespace GraphQuery

theorem Tags.exists_mem_product {sets : List (List Tags)} :
    (∃ t, t ∈ product sets) ↔ [] ∉ sets := by
  rw [← List.isEmpty_eq_false_iff_exists_mem, List.isEmpty_eq_false_iff, Ne, product_eq_nil_iff]

namespace Table

variable {ok : String → Prop} {R R' : Handle → Handle → Prop} {T U V : Table}

/-- The second table is at the nodes that are related to those of the first one. Its binding sets
are those of the first one, overridden with accepted names only. -/
structure Relays (ok : String → Prop) (R : Handle → Handle → Prop) (T U : Table) : Prop where
  nodes : ∀ y, (∃ t, ⟨y, t⟩ ∈ U.entries) ↔ ∃ r ∈ T.entries, R r.id y
  kept : ∀ q ∈ U.entries, ∃ r ∈ T.entries, ∃ u : Tags, u.Binds ok ∧ q.tags = r.tags.override u

theorem Relays.refl (T : Table) : Relays ok (· = ·) T T where
  nodes y := by
    constructor
    · rintro ⟨t, ht⟩
      exact ⟨_, ht, rfl⟩
    · rintro ⟨r, hr, rfl⟩
      exact ⟨r.tags, hr⟩
  kept q hq := ⟨q, hq, .empty, Tags.binds_empty, rfl⟩

theorem Relays.trans (hU : Relays ok R T U) (hV : Relays ok R' U V) :
    Relays ok (Relation.Comp R R') T V where
  nodes z := by
    rw [hV.nodes z]
    constructor
    · rintro ⟨q, hq, hz⟩
      obtain ⟨r, hr, hy⟩ := (hU.nodes q.id).1 ⟨q.tags, hq⟩
      exact ⟨r, hr, q.id, hy, hz⟩
    · rintro ⟨r, hr, y, hy, hz⟩
      obtain ⟨t, ht⟩ := (hU.nodes y).2 ⟨r, hr, hy⟩
      exact ⟨_, ht, hz⟩
  kept q hq := by
    obtain ⟨p, hp, v, hv, hpq⟩ := hV.kept q hq
    obtain ⟨r, hr, u, hu, hrp⟩ := hU.kept p hp
    exact ⟨r, hr, u.override v, hu.override hv, by rw [hpq, hrp, Tags.override_assoc]⟩

theorem Relays.congr (hU : Relays ok R T U) (h : ∀ r ∈ T.entries, ∀ y, R r.id y ↔ R' r.id y) :
    Relays ok R' T U where
  nodes y := (hU.nodes y).trans (exists_congr fun r => and_congr_right fun hr => h r hr y)
  kept := hU.kept

theorem Relays.either (hU : Relays ok R T U) (hV : Relays ok R' T V) :
    Relays ok (fun x y => R x y ∨ R' x y) T (concat [U, V]) := by
  have hentries : (concat [U, V]).entries = U.entries ++ V.entries := by
    rw [entries_concat]
    simp
  constructor
  · intro y
    simp only [hentries, List.mem_append, exists_or, hU.nodes y, hV.nodes y, and_or_left]
  · intro q hq
    rw [hentries, List.mem_append] at hq
    exact hq.elim (hU.kept q) (hV.kept q)

/-- What is led on by a passage is related if there is a way. -/
theorem Leads.relays {G : Passage} (hU : Leads G T U) (hG : ∀ x y u, G x y u → u.Binds ok) :
    Relays ok (fun x y => ∃ u, G x y u) T U where
  nodes y := by
    simp only [hU y]
    constructor
    · rintro ⟨_, r, hr, u, hu, -⟩
      exact ⟨r, hr, u, hu⟩
    · rintro ⟨r, hr, u, hu⟩
      exact ⟨_, r, hr, u, hu, rfl⟩
  kept q hq := by
    obtain ⟨r, hr, u, hu, hq⟩ := (hU q.id q.tags).1 hq
    exact ⟨r, hr, u, hG _ _ _ hu, hq⟩

theorem mem_entries {q : ResultRow} :
    q ∈ T.entries ↔ ∃ r ∈ T.rows, r.handle = q.id ∧ q.tags ∈ r.sets := by
  obtain ⟨h, t⟩ := q
  simp only [entries, List.mem_flatMap, Row.entries, List.mem_map, ResultRow.mk.injEq]
  constructor
  · rintro ⟨r, hr, _, ht, rfl, rfl⟩
    exact ⟨r, hr, rfl, ht⟩
  · rintro ⟨r, hr, rfl, ht⟩
    exact ⟨r, hr, t, ht, rfl, rfl⟩

theorem relays_of_subset (hsub : ∀ r ∈ U.rows, r ∈ T.rows)
    (hall : ∀ r ∈ T.rows, ∃ q ∈ U.rows, q.handle = r.handle) (hne : ∀ r ∈ T.rows, r.sets ≠ []) :
    Relays ok (· = ·) T U where
  nodes y := by
    constructor
    · rintro ⟨t, ht⟩
      obtain ⟨r, hr, hy, ht⟩ := mem_entries.1 ht
      exact ⟨⟨y, t⟩, mem_entries.2 ⟨r, hsub r hr, hy, ht⟩, rfl⟩
    · rintro ⟨q, hq, rfl⟩
      obtain ⟨r, hr, hid, -⟩ := mem_entries.1 hq
      obtain ⟨r', hr', heq⟩ := hall r hr
      obtain ⟨t, ht⟩ := List.exists_mem_of_ne_nil _ (hne r' (hsub r' hr'))
      exact ⟨t, mem_entries.2 ⟨r', hr', heq.trans hid, ht⟩⟩
  kept q hq := by
    obtain ⟨r, hr, hid, ht⟩ := mem_entries.1 hq
    exact ⟨q, mem_entries.2 ⟨r, hsub r hr, hid, ht⟩, .empty, Tags.binds_empty, rfl⟩

end Table

namespace Plan

variable {ok : String → Prop} {m : MemoryStore} {p q : Plan} {T U : Table}

def Holds (store : QuadStore) (p : Plan) (h : Handle) : Prop :=
  ∃ t, t ∈ ((p.meaning store).reply h).sets

def probed (store : QuadStore) (p : Plan) : Table :=
  ⟨[], fun h => ((p.meaning store).reply h).sets⟩

theorem reply_probed (hm : m.Addressable) (hq : q.Within m.toStore.harmless) :
    (q.meaning m.toStore).reply = (q.probed m.toStore).meaning.reply := by
  have hfaultless := (safe_on (MemoryStore.coherent hm) safe_noHole q hq).reply
  funext h
  have herror : ((q.meaning m.toStore).reply h).error = none := hfaultless h
  simp only [probed, Table.meaning, Reply.ofSets]
  rw [← herror]

/-- The plan cannot fail, and its scan shows the rows of the table however often one turns. -/
structure Scans (m : MemoryStore) (p : Plan) (T : Table) : Prop where
  within : p.Within m.toStore.harmless
  feed : (p.meaning m.toStore).feed = .ofRows T.rows

theorem Scans.safeRows (hm : m.Addressable) (hp : p.Scans m T) :
    SafeRows (· ∈ m.toStore.nodes) T.rows := by
  have hsafe := (safe_on (MemoryStore.coherent hm) safe_noHole p hp.within).feed
  rw [show (p.meaningOn m.toStore noHole).feed = _ from hp.feed] at hsafe
  exact Feed.safeRows_of_safe hsafe

theorem Scans.sets_ne_nil (hm : m.Addressable) (hp : p.Scans m T) : ∀ r ∈ T.rows, r.sets ≠ [] :=
  fun r hr => (hp.safeRows hm r hr).2

theorem Scans.report (hp : p.Scans m T) :
    (p.roles m.toStore).scanner.report .never = (.ok T.rows, .never) := by
  have hreport := (p.realizes m.toStore).shows.report
  rw [hp.feed] at hreport
  simpa only [Feed.delivered_ofRows] using hreport

/-! ## Operators -/

/-- Meeting a plan keeps the rows that a probe of it finds. -/
theorem Scans.meet (hm : m.Addressable) (hp : p.Scans m T) (hq : q.Within m.toStore.harmless)
    (hn : ∀ n ∈ q.names, ok n) : ∃ U, (Plan.and [p, q] 0).Scans m U ∧
      Table.Relays ok (fun x y => x = y ∧ q.Holds m.toStore x) T U := by
  have hfeed : ((Plan.and [p, q] 0).meaning m.toStore).feed =
      (p.meaning m.toStore).feed.join [(q.meaning m.toStore).reply] 0 := rfl
  have hjoin := Table.join_ofRows (hp.sets_ne_nil hm) [q.probed m.toStore] (Nat.zero_le 1)
  rw [hp.feed, reply_probed hm hq] at hfeed
  refine ⟨Table.join [T, q.probed m.toStore] 0, ⟨⟨hp.within, hq, trivial⟩, hfeed.trans hjoin⟩, ?_⟩
  refine ((Table.leads_join T (q.probed m.toStore)).relays fun x y u hu => ?_).congr fun r _ y => ?_
  · exact (binds m.toStore q hn).reply x u hu.2
  · exact exists_and_left

def Walks (m : MemoryStore) (via labels : Option Plan) (fromEnd toEnd : Direction)
    (x y : Handle) : Prop :=
  ∃ id quad, m.quad id = some quad ∧ quad.at fromEnd = some x ∧ quad.at toEnd = some y ∧
    (∀ p ∈ via, p.Holds m.toStore quad.predicate) ∧
    ∀ p ∈ labels, ∃ l, quad.label = some l ∧ p.Holds m.toStore l

/-- Walking from the other end is walking back. -/
theorem walks_comm {via labels : Option Plan} {fromEnd toEnd : Direction} {x y : Handle} :
    Walks m via labels toEnd fromEnd y x ↔ Walks m via labels fromEnd toEnd x y := by
  refine exists_congr fun id => exists_congr fun quad => and_congr_right fun _ => ?_
  exact and_left_comm

def demandsOf (store : QuadStore) (via : Option Plan) (names : List String)
    (labels : Option Plan) : QuadSets :=
  ⟨via.map fun p => (p.probed store).sets, names, labels.map fun p => (p.probed store).sets⟩

theorem nil_notMem_choices {store : QuadStore} {via labels : Option Plan} {names : List String}
    {quad : Quad} : [] ∉ (demandsOf store via names labels).choices quad ↔
      (∀ p ∈ via, p.Holds store quad.predicate) ∧
        ∀ p ∈ labels, ∃ l, quad.label = some l ∧ p.Holds store l := by
  have hnamed := QuadSets.nil_notMem_named (demandsOf store via names labels).replies quad.predicate
  have hprobed : ∀ (p : Plan) (h : Handle), [] ∉ [(p.probed store).sets h] ↔ p.Holds store h :=
    fun p h => Tags.exists_mem_product.symm.trans (by rw [Tags.product_singleton]; rfl)
  simp only [QuadSets.choices, List.mem_append, not_or, hnamed, not_false_iff, and_true]
  refine and_congr ?_ ?_
  · cases via with
    | none => simp [demandsOf]
    | some p => exact (hprobed p _).trans (by simp)
  · cases labels with
    | none => simp [QuadSets.labelChoices, demandsOf]
    | some p =>
        cases hlabel : quad.label with
        | none => simp [QuadSets.labelChoices, demandsOf]
        | some l => exact (hprobed p l).trans (by simp)

theorem replies_demandsOf (hm : m.Addressable) {via labels : Option Plan} (names : List String)
    (hvia : WithinOption m.toStore.harmless via)
    (hlabels : WithinOption m.toStore.harmless labels) :
    (demandsOf m.toStore via names labels).replies =
      ⟨(meaningOfOption m.toStore noHole via).map Meaning.reply, names,
        (meaningOfOption m.toStore noHole labels).map Meaning.reply⟩ := by
  have hoption : ∀ {q : Option Plan}, WithinOption m.toStore.harmless q →
      (q.map fun p => (p.probed m.toStore).sets).map (fun sets h => Reply.ofSets (sets h)) =
        (meaningOfOption m.toStore noHole q).map Meaning.reply := by
    intro q hq
    cases q with
    | none => rfl
    | some q => exact congrArg some (reply_probed hm hq).symm
  simp only [demandsOf, QuadSets.replies, hoption hvia, hoption hlabels]

theorem binds_choices {store : QuadStore} {via labels : Option Plan} {names : List String}
    (hvia : ∀ n ∈ namesOfOption via, ok n) (hnames : ∀ n ∈ names, ok n)
    (hlabels : ∀ n ∈ namesOfOption labels, ok n) (quad : Quad) :
    Tags.AllBind ok ((demandsOf store via names labels).choices quad) := by
  refine (Tags.AllBind.append ?_ ?_).append ?_
  · cases via with
    | none => simp [Tags.AllBind, demandsOf]
    | some p =>
        simpa [Tags.AllBind, demandsOf, probed] using (binds store p hvia).reply quad.predicate
  · unfold QuadReplies.named
    split
    · simp [Tags.AllBind]
    · have hnamed : (Tags.ofNames names quad.predicate).Binds ok :=
        Tags.binds_empty.insertAll hnames _
      simpa [Tags.AllBind, demandsOf, QuadSets.replies] using hnamed
  · cases labels with
    | none => simp [Tags.AllBind, demandsOf, QuadSets.labelChoices]
    | some p =>
        cases hlabel : quad.label with
        | none => simp [Tags.AllBind, demandsOf, QuadSets.labelChoices]
        | some l =>
            simpa [Tags.AllBind, demandsOf, probed, QuadSets.labelChoices] using
              (binds store p hlabels).reply l

theorem Scans.walk (hm : m.Addressable) (hp : p.Scans m T) (fromEnd toEnd : Direction)
    {via labels : Option Plan} {names : List String}
    (hvia : WithinOption m.toStore.harmless via) (hlabels : WithinOption m.toStore.harmless labels)
    (hn : (∀ n ∈ namesOfOption via, ok n) ∧ (∀ n ∈ names, ok n) ∧
      ∀ n ∈ namesOfOption labels, ok n) :
    ∃ U, (Plan.step p fromEnd toEnd via names labels).Scans m U ∧
      Table.Relays ok (Walks m via labels fromEnd toEnd) T U := by
  let W : Trail := ⟨m.toStore, fromEnd, toEnd⟩
  let D := demandsOf m.toStore via names labels
  have hfeed : ((Plan.step p fromEnd toEnd via names labels).meaning m.toStore).feed =
      (p.meaning m.toStore).feed.step W ⟨(meaningOfOption m.toStore noHole via).map Meaning.reply,
        names, (meaningOfOption m.toStore noHole labels).map Meaning.reply⟩ := rfl
  rw [hp.feed, ← replies_demandsOf hm names hvia hlabels,
    Table.step_ofRows (hp.sets_ne_nil hm)] at hfeed
  refine ⟨T.step W D, ⟨⟨hp.within, hvia, hlabels⟩, hfeed⟩, ?_⟩
  refine ((Table.leads_step T W D).relays ?_).congr fun r _ y => ?_
  · rintro x y u ⟨id, -, quad, -, hu⟩
    exact (binds_choices hn.1 hn.2.1 hn.2.2 quad).product u hu
  · have hending : ∀ {id quad}, m.toStore.ending toEnd id = some (quad, y) ↔
        m.quad id = some quad ∧ quad.at toEnd = some y := by
      intro id quad
      simp only [QuadStore.ending, Option.bind_eq_some_iff, Option.map_eq_some_iff, Prod.mk.injEq]
      constructor
      · rintro ⟨q, hq, h, hto, rfl, rfl⟩
        exact ⟨hq, hto⟩
      · rintro ⟨hq, hto⟩
        exact ⟨quad, hq, y, hto, rfl, rfl⟩
    have hproduct : ∀ quad : Quad, (∃ u, u ∈ Tags.product (D.choices quad)) ↔ _ :=
      fun quad => Tags.exists_mem_product.trans nil_notMem_choices
    constructor
    · rintro ⟨u, id, hid, quad, hend, hu⟩
      obtain ⟨hquad, hto⟩ := hending.1 hend
      obtain ⟨quad', hquad', hfrom⟩ := (MemoryStore.mem_quadsWith hm).1 hid
      obtain rfl : quad' = quad := Option.some.inj (hquad'.symm.trans hquad)
      exact ⟨id, quad', hquad, hfrom, hto, (hproduct quad').1 ⟨u, hu⟩⟩
    · rintro ⟨id, quad, hquad, hfrom, hto, hadmits⟩
      obtain ⟨u, hu⟩ := (hproduct quad).2 hadmits
      exact ⟨u, id, (MemoryStore.mem_quadsWith hm).2 ⟨quad, hquad, hfrom⟩, quad,
        hending.2 ⟨hquad, hto⟩, hu⟩

theorem Scans.union {q : Plan} (hp : p.Scans m T) (hq : q.Scans m U) :
    (Plan.or [p, q]).Scans m (.concat [T, U]) where
  within := ⟨hp.within, hq.within, trivial⟩
  feed := by
    have hfeed : ((Plan.or [p, q]).meaning m.toStore).feed =
        (p.meaning m.toStore).feed.append ((q.meaning m.toStore).feed.append (.ofRows [])) := rfl
    rw [hfeed, hp.feed, hq.feed, Table.append_ofRows, Table.append_ofRows]
    simp [Table.concat]

theorem Scans.save (hp : p.Scans m T) {names : List String} (hn : ∀ n ∈ names, ok n) :
    ∃ U, (Plan.save p names).Scans m U ∧ Table.Relays ok (· = ·) T U := by
  have hfeed : ((Plan.save p names).meaning m.toStore).feed =
      (p.meaning m.toStore).feed.mapSets fun h t => t.insertAll names h := rfl
  rw [hp.feed, Table.mapSets_ofRows] at hfeed
  have hleads : Table.Leads (fun x y u => x = y ∧ u = Tags.ofNames names x) T (T.naming names) := by
    intro y s
    rw [Table.entries_naming, List.mem_map]
    constructor
    · rintro ⟨r, hr, heq⟩
      obtain ⟨rfl, rfl⟩ := ResultRow.mk.inj heq
      exact ⟨r, hr, _, ⟨rfl, rfl⟩, (Tags.override_ofNames ..).symm⟩
    · rintro ⟨r, hr, u, ⟨rfl, rfl⟩, rfl⟩
      exact ⟨r, hr, by rw [Tags.override_ofNames]⟩
  refine ⟨T.naming names, ⟨hp.within, hfeed⟩, (hleads.relays ?_).congr fun r _ y => by simp⟩
  rintro x y u ⟨-, rfl⟩
  exact Tags.binds_empty.insertAll hn x

theorem Scans.unique (hm : m.Addressable) (hp : p.Scans m T) :
    ∃ U, (Plan.unique p).Scans m U ∧ Table.Relays ok (· = ·) T U := by
  have hfeed : ((Plan.unique p).meaning m.toStore).feed = (p.meaning m.toStore).feed.firsts := rfl
  rw [hp.feed, Table.firsts_ofRows] at hfeed
  refine ⟨.recorded (Table.firstRows T.rows []), ⟨hp.within, hfeed⟩, ?_⟩
  exact Table.relays_of_subset (fun r => Table.mem_of_mem_firstRows)
    (fun r hr => Table.exists_mem_firstRows hr (by simp)) (hp.sets_ne_nil hm)

theorem Scans.sort (hm : m.Addressable) (hp : p.Scans m T) :
    ∃ U, (Plan.sort p).Scans m U ∧ Table.Relays ok (· = ·) T U := by
  have hs := MemoryStore.coherent hm
  have hvet : ∀ r ∈ T.rows, m.toStore.vet r.handle = none := fun r hr =>
    if_pos ((hs.resolve_iff r.handle).2 (hp.safeRows hm r hr).1)
  have hfeed : ((Plan.sort p).meaning m.toStore).feed =
      (p.meaning m.toStore).feed.sorted m.toStore := rfl
  rw [hp.feed, Feed.sorted, Feed.drain_ofRows hvet] at hfeed
  have hmem : ∀ {r}, r ∈ T.rows.mergeSort m.toStore.notAfter ↔ r ∈ T.rows :=
    (List.mergeSort_perm _ _).mem_iff
  refine ⟨.recorded (T.rows.mergeSort m.toStore.notAfter), ⟨hp.within, hfeed⟩, ?_⟩
  exact Table.relays_of_subset (fun r => hmem.1) (fun r hr => ⟨r, hmem.2 hr, rfl⟩)
    (hp.sets_ne_nil hm)

theorem Scans.test (hm : m.Addressable) (hp : p.Scans m T) {r : Plan} {test : ValueTest}
    (ht : m.toStore.Total test) (hr : r.Within m.toStore.harmless)
    (hmeaning : r.meaning m.toStore = (p.meaning m.toStore).sieve
      (verdictOn m.toStore test fun h => .failed (.unknownHandle h))
      (verdictOn m.toStore test fun _ => .nothing)) :
    ∃ U, r.Scans m U ∧
      Table.Relays ok (fun x y => x = y ∧ Table.accepts m.toStore test x = true) T U := by
  have hs := MemoryStore.coherent hm
  have hfeed : (r.meaning m.toStore).feed = (p.meaning m.toStore).feed.sieve
      (.plain (verdictOn m.toStore test fun h => .failed (.unknownHandle h))) () := by
    rw [hmeaning]
    rfl
  rw [hp.feed, Table.sieve_ofRows fun q hq => Table.verdictOn_eq ht fun hnone => ?_] at hfeed
  · refine ⟨T.filter (Table.accepts m.toStore test), ⟨hr, hfeed⟩, ?_⟩
    refine ((Table.leads_filter T _).relays ?_).congr fun r _ y => by simp
    rintro x y u ⟨-, -, rfl⟩
    exact Tags.binds_empty
  · obtain ⟨v, hv⟩ := hs.exists_value (hp.safeRows hm q hq).1
    rw [hnone] at hv
    simp at hv

end Plan

end GraphQuery
