import GraphQuery.Proofs.Closure.Levels
import GraphQuery.Proofs.Closure.Passage
import GraphQuery.Proofs.Path.Fill

/-!
# Closures that show every handle once

A closure of a path that walks and restricts, showing first bindings only, goes through what the
path reaches from the seeds in the order of the distance.
-/

namespace GraphQuery

namespace Path

/-- A path applied to one node has another one among its results. -/
def LeadsTo (path : Path) (store : QuadStore) (ctx : LabelContext) (x y : Handle) : Prop :=
  ∃ rows,
    ((path.build ⟨store, .first⟩ ctx (some (.fixed (.ofList [x])))).roles store).scanner.report
      .never = (.ok rows, .never) ∧ y ∈ rows.map Row.handle

/-- `LeadsTo`, where closures within the path show any bindings. -/
def LeadsToBy (path : Path) (target : Target) (ctx : LabelContext) (x y : Handle) : Prop :=
  ∃ rows,
    ((path.build target ctx (some (.fixed (.ofList [x])))).roles target.store).scanner.report
      .never = (.ok rows, .never) ∧ y ∈ rows.map Row.handle

variable {m : MemoryStore} {inner : ClosureBindings} {scope : LabelScope} {path : Path}

def levelPlan (frontier : Reached) : Plan :=
  .save (.fixed frontier.inputs) [baseName]

def expansion (m : MemoryStore) (inner : ClosureBindings) (scope : LabelScope) (path : Path)
    (frontier : Reached) : Delivered :=
  ((build ⟨m.toStore, inner⟩ (scope.context m.toStore) (some .input) path).meaningOn m.toStore
    (.level frontier)).feed.delivered

theorem solid_context (store : QuadStore) (scope : LabelScope) (q : Plan) :
    Solid q (scope.context store) := by
  cases scope <;> rfl

/-- The meaning of a level is that of the path applied to the frontier. -/
theorem meaningOn_level (m : MemoryStore) (inner : ClosureBindings) (scope : LabelScope)
    (path : Path) (frontier : Reached) :
    (build ⟨m.toStore, inner⟩ (scope.context m.toStore) (some .input) path).meaningOn m.toStore
        (.level frontier) =
      (build ⟨m.toStore, inner⟩ (scope.context m.toStore) (some (levelPlan frontier))
        path).meaning m.toStore := by
  have hlevel : Meaning.level frontier = (levelPlan frontier).meaningOn m.toStore Plan.noHole := rfl
  rw [hlevel, ← Plan.meaningOn_fill, fill_build _ _ _ _ _ (solid_context m.toStore scope _)]
  rfl

theorem within_build (hm : m.Addressable) (inner : ClosureBindings) (scope : LabelScope)
    (hpath : path.Within m.toStore.unlimited) {p : Plan} (hp : p.Within m.toStore.unlimited) :
    (build ⟨m.toStore, inner⟩ (scope.context m.toStore) (some p) path).Within
      m.toStore.unlimited := by
  have hs := MemoryStore.coherent hm
  refine builds (fun v h hv => hs.mem_of_intern hv) path hpath _ _ ?_ hp
  cases scope with
  | none => trivial
  | some context => exact Plan.within_values hm context.1

theorem mem_handles_entries {T : Table} (hT : ∀ r ∈ T.rows, r.sets ≠ []) {y : Handle} :
    y ∈ T.rows.map Row.handle ↔ ∃ s, ⟨y, s⟩ ∈ T.entries := by
  simp only [Table.entries, List.mem_map, List.mem_flatMap, Row.entries, ResultRow.mk.injEq]
  constructor
  · rintro ⟨r, hr, rfl⟩
    obtain ⟨t, ht⟩ := List.exists_mem_of_ne_nil _ (hT r hr)
    exact ⟨t, r, hr, t, ht, rfl, rfl⟩
  · rintro ⟨s, r, hr, t, -, rfl, -⟩
    exact ⟨r, hr, rfl⟩

theorem within_node {x : Handle} (hx : x ∈ m.toStore.nodes) :
    (Plan.fixed (.ofList [x])).Within m.toStore.unlimited := by
  intro h hh
  obtain rfl : h = x := by simpa using hh
  exact hx

theorem leadsTo_iff (hm : m.Addressable) (hpath : path.Within m.toStore.unlimited) {G : Passage}
    (hG : ∀ p : Plan, Table.Leads G (p.table m.toStore)
      ((build ⟨m.toStore, inner⟩ (scope.context m.toStore) (some p) path).table m.toStore))
    {x y : Handle} (hx : x ∈ m.toStore.nodes) :
    path.LeadsToBy ⟨m.toStore, inner⟩ (scope.context m.toStore) x y ↔ ∃ u, G x y u := by
  have hs := MemoryStore.coherent hm
  have hwithin := within_build hm inner scope hpath (within_node hx)
  have hentries : ((Plan.fixed (.ofList [x])).table m.toStore).entries = [⟨x, .empty⟩] :=
    Table.entries_leaf _ _
  have hreport := (Plan.realizes_table hs hwithin).report_scan
  have hreached : path.LeadsToBy ⟨m.toStore, inner⟩ (scope.context m.toStore) x y ↔
      y ∈ ((build ⟨m.toStore, inner⟩ (scope.context m.toStore) (some (.fixed (.ofList [x])))
        path).table m.toStore).rows.map Row.handle := by
    constructor
    · rintro ⟨rows, hrows, hy⟩
      rw [hreport] at hrows
      obtain rfl : _ = rows := by simpa using hrows
      exact hy
    · exact fun hy => ⟨_, hreport, hy⟩
  rw [hreached,
    mem_handles_entries fun r hr => ((Plan.tabular_of_unlimited hwithin).safeRows hs r hr).2]
  simp only [hG _ y, hentries, List.mem_singleton, exists_eq_left, Tags.empty_override]
  constructor
  · rintro ⟨_, u, hu, -⟩
    exact ⟨u, hu⟩
  · rintro ⟨u, hu⟩
    exact ⟨u, u, hu, rfl⟩

theorem expansion_eq (hm : m.Addressable) (inner : ClosureBindings) (scope : LabelScope)
    (hpath : path.Within m.toStore.unlimited) {frontier : Reached}
    (hf : ∀ p ∈ frontier, p.1 ∈ m.toStore.nodes) :
    (levelPlan frontier).Within m.toStore.unlimited ∧
    expansion m inner scope path frontier =
      ⟨((build ⟨m.toStore, inner⟩ (scope.context m.toStore) (some (levelPlan frontier))
        path).table m.toStore).rows, none⟩ := by
  have hlevel : (levelPlan frontier).Within m.toStore.unlimited := Reached.forall_inputs hf
  refine ⟨hlevel, ?_⟩
  rw [expansion, meaningOn_level, (Plan.tabular_of_unlimited
    (within_build hm inner scope hpath hlevel)).meaning_eq (MemoryStore.coherent hm)]
  exact Feed.delivered_ofRows _

theorem safe_expansion (hm : m.Addressable) (inner : ClosureBindings) (scope : LabelScope)
    (hpath : path.Within m.toStore.unlimited) :
    Feed.SafeExpansion (· ∈ m.toStore.nodes) (expansion m inner scope path) := by
  intro frontier hf
  obtain ⟨hlevel, hdelivered⟩ := expansion_eq hm inner scope hpath hf
  simp only [hdelivered, true_and]
  exact (Plan.tabular_of_unlimited (within_build hm inner scope hpath hlevel)).safeRows
    (MemoryStore.coherent hm)

/-- At the start of a level each handle of the frontier is bound to the name of the base. -/
theorem entries_levelPlan (store : QuadStore) (frontier : Reached) :
    ((levelPlan frontier).table store).entries =
      frontier.inputs.toList.map fun x => ⟨x, Tags.empty.insertAll [baseName] x⟩ := by
  have hleaf : ((Plan.fixed frontier.inputs).table store).entries =
      frontier.inputs.toList.map (⟨·, .empty⟩) := Table.entries_leaf _ _
  show (((Plan.fixed frontier.inputs).table store).naming [baseName]).entries = _
  rw [Table.entries_naming, hleaf, List.map_map]
  rfl

theorem mem_candidates {frontier : Reached} {T : Table} {y : Handle} {t : Tags} :
    (y, t) ∈ Level.candidates frontier T.rows ↔
      ∃ s base, ⟨y, s⟩ ∈ T.entries ∧ s.get? baseName = some base ∧ (base, t) ∈ frontier := by
  rw [Level.mem_candidates_iff]
  simp only [Table.entries, List.mem_flatMap, Row.entries, List.mem_map, ResultRow.mk.injEq]
  constructor
  · rintro ⟨row, hrow, rfl, s, hs, base, hbase⟩
    exact ⟨s, base, ⟨row, hrow, s, hs, rfl, rfl⟩, hbase⟩
  · rintro ⟨s, base, ⟨row, hrow, _, hs, rfl, rfl⟩, hbase⟩
    exact ⟨row, hrow, rfl, _, hs, base, hbase⟩

/-- The bindings of the base tell which frontier handle a result was reached from. -/
theorem traces_level (hm : m.Addressable) (hscope : scope.Unmarked) (htrace : path.IsTraceable)
    (hpath : path.Within m.toStore.unlimited) :
    Feed.Traces (path.LeadsToBy ⟨m.toStore, inner⟩ (scope.context m.toStore)) (· ∈ m.toStore.nodes)
      (expansion m inner scope path) := by
  have hpassage : Traces m inner scope path := traces hm hscope path
  obtain ⟨-, G, hunmarked, hG⟩ := hpassage htrace
  intro frontier hf y t
  obtain ⟨-, hdelivered⟩ := expansion_eq hm inner scope hpath hf
  simp only [hdelivered]
  have hbase : ∀ x u, G x y u → ((Tags.empty.insertAll [baseName] x).override u).get? baseName =
      some x := by
    intro x u hu
    simp [hunmarked x y u hu]
  simp only [mem_candidates, hG _ y, entries_levelPlan, List.mem_map]
  constructor
  · rintro ⟨s, base, ⟨_, ⟨x, hx, rfl⟩, u, hu, rfl⟩, hget, ht⟩
    obtain rfl : x = base := Option.some.inj ((hbase x u hu).symm.trans hget)
    exact ⟨x, ht, (leadsTo_iff hm hpath hG (hf _ ht)).2 ⟨u, hu⟩⟩
  · rintro ⟨x, ht, hx⟩
    obtain ⟨u, hu⟩ := (leadsTo_iff hm hpath hG (hf _ ht)).1 hx
    have hinput : x ∈ frontier.inputs.toList :=
      Reached.mem_inputs.2 (Reached.mem_handles.2 ⟨t, ht⟩)
    exact ⟨_, x, ⟨_, ⟨x, hinput, rfl⟩, u, hu, rfl⟩, hbase x u hu, ht⟩

end Path

namespace Plan

variable {store : QuadStore}

/-- What a closure of first bindings reports, read off its levels. -/
theorem report_recursive {seeds morphism : Plan} {seedRows : List Row}
    (hrows : (seeds.roles store).scanner.report .never = (.ok seedRows, .never)) {maxDepth : Nat}
    {names : List String} {bindings : ClosureBindings} {rows : List Row}
    (hlevels : (Feed.levels bindings maxDepth (Closure.tagsAt store names)
      (fun frontier => (morphism.meaningOn store (.level frontier)).feed.delivered) []
      (.ofRows seedRows) 0).delivered = ⟨rows, none⟩) :
    ((Plan.recursive seeds morphism maxDepth names bindings).roles store).scanner.report .never =
      (.ok rows, .never) := by
  have hfeed : ((Plan.recursive seeds morphism maxDepth names bindings).meaning store).feed =
      Feed.levels bindings maxDepth (Closure.tagsAt store names)
        (fun frontier => (morphism.meaningOn store (.level frontier)).feed.delivered) []
        (.ofRows seedRows) 0 := by
    show (seeds.meaning store).feed.closure bindings maxDepth _ _ = _
    rw [Feed.closure, delivered_of_report hrows]
  have hreport :=
    ((Plan.recursive seeds morphism maxDepth names bindings).realizes store).shows.report
  rw [hfeed, hlevels] at hreport
  exact hreport

theorem safeRows_report (hs : store.Coherent) {p : Plan} (hp : p.Within store.native)
    {rows : List Row} (hrows : (p.roles store).scanner.report .never = (.ok rows, .never)) :
    SafeRows (· ∈ store.nodes) rows := by
  have hholds := (holds_on hs safe_noHole.feed.expectAny p hp).delivered.2
  have hdelivered := delivered_of_report hrows
  rw [meaning] at hdelivered
  rwa [show p.meaningOn store noHole = _ from rfl, hdelivered] at hholds

/-- A closure of a path reports what its levels deliver, as none of them fails. -/
theorem report_closure {m : MemoryStore} (hm : m.Addressable) {scope : LabelScope} {path : Path}
    (hpath : path.Within m.toStore.unlimited) {seeds : Plan} {seedRows : List Row}
    (hseeds : SafeRows (· ∈ m.toStore.nodes) seedRows)
    (hrows : (seeds.roles m.toStore).scanner.report .never = (.ok seedRows, .never))
    (maxDepth : Nat) (names : List String) :
    ((Plan.recursive seeds (path.build ⟨m.toStore, .first⟩ (scope.context m.toStore) (some .input))
        maxDepth names .first).roles m.toStore).scanner.report .never =
      (.ok (Feed.levels .first maxDepth (Closure.tagsAt m.toStore names)
        (Path.expansion m .first scope path) [] (.ofRows seedRows) 0).delivered.rows, .never) := by
  have hsafe : (Feed.levels .first maxDepth (Closure.tagsAt m.toStore names)
      (Path.expansion m .first scope path) [] (.ofRows seedRows) 0).Safe (· ∈ m.toStore.nodes) :=
    Feed.holds_levels (Path.safe_expansion hm .first scope hpath).holds [] (.ofRows seedRows) 0
      (Reached.forall_ofRows hseeds)
  exact report_recursive hrows (congrArg (Delivered.mk _) hsafe.delivered.1)

theorem tagsAt_eq (store : QuadStore) (names : List String) (k : Nat) (t : Tags) :
    Closure.tagsAt store names k t =
      match store.intern (.int (.ofNat k)) with
      | some depth => t.insertAll names depth
      | none => t := by
  unfold Closure.tagsAt
  cases names with
  | nil => cases store.intern (.int (.ofNat k)) <;> rfl
  | cons name names => cases store.intern (.int (.ofNat k)) <;> rfl

/-- A closure that shows first bindings is breadth-first reachability. For a path that walks and
restricts, applied again and again to the results of seeds whose drain succeeds: the drain of the
closure succeeds and shows every handle once, those at a distance within the bound and no others,
in the order of their distance, each with what a seed at that distance has bound, and with the
distance bound to the depth names over it. The drain with a bound is a first part of the drain
without one. -/
theorem closure_by_distance (m : MemoryStore) (hm : m.Addressable) (scope : LabelScope)
    (hscope : scope.Unmarked) (path : Path) (htrace : path.IsTraceable)
    (hpath : path.Within m.toStore.unlimited) (seeds : Plan)
    (hseeds : seeds.Within m.toStore.native) (seedRows : List Row)
    (hrows : (seeds.roles m.toStore).scanner.report .never = (.ok seedRows, .never))
    (maxDepth : Nat) (names : List String) :
    let morphism := path.build ⟨m.toStore, .first⟩ (scope.context m.toStore) (some .input)
    let drained n := ((Plan.recursive seeds morphism n names .first).roles m.toStore).scanner.report
    let R := path.LeadsTo m.toStore (scope.context m.toStore)
    let start h := h ∈ seedRows.map Row.handle
    ∃ rows full,
      drained maxDepth .never = (.ok rows, .never) ∧ drained 0 .never = (.ok full, .never) ∧
      rows <+: full ∧ (rows.map Row.handle).Nodup ∧
      (∀ y, y ∈ rows.map Row.handle ↔ ∃ k, (maxDepth = 0 ∨ k ≤ maxDepth) ∧ Distance R start y k) ∧
      (rows.Pairwise fun r q => ∀ j k, Distance R start r.handle j → Distance R start q.handle k →
        j ≤ k) ∧
      ∀ r ∈ rows, ∀ k, Distance R start r.handle k →
        ∃ s ∈ seedRows, ∃ t ∈ s.sets, ReachedIn R k s.handle r.handle ∧
          r.sets = [match m.intern (.int (.ofNat k)) with
            | some depth => t.insertAll names depth
            | none => t] := by
  intro morphism drained R start
  have hsafe := safeRows_report (MemoryStore.coherent hm) hseeds hrows
  have hstart : (· ∈ (Reached.ofRows seedRows).handles) = start :=
    funext fun h => propext (Reached.mem_handles_ofRows fun r hr => (hsafe r hr).2)
  have hexpand := Path.safe_expansion hm .first scope hpath
  have htraces : Feed.Traces R (· ∈ m.toStore.nodes) (Path.expansion m .first scope path) :=
    Path.traces_level hm hscope htrace hpath
  have hfrontier := Reached.forall_ofRows hsafe
  -- Both drains are read off levels that start from the seeds.
  have hdrained n : drained n .never = (.ok _, .never) :=
    report_closure hm hpath hsafe hrows n names
  have hlisted : ByDistance R (.ofRows seedRows) maxDepth (Closure.tagsAt m.toStore names) 0 _ :=
    (nearest_seeds R (.ofRows seedRows)).byDistance hexpand htraces hfrontier
  refine ⟨_, _, hdrained maxDepth, hdrained 0, Feed.levels_prefix hexpand _ _ _ hfrontier,
    hlisted.nodup, fun y => ?_, ?_, fun r hr k hk => ?_⟩
  · rw [hlisted.mem_iff, hstart]
    exact ⟨fun ⟨k, _, hmax, hd⟩ => ⟨k, hmax, hd⟩, fun ⟨k, hmax, hd⟩ => ⟨k, hd.pos, hmax, hd⟩⟩
  · rw [← hstart]
    exact hlisted.ordered
  · obtain ⟨s, t, hs, hreached, hsets⟩ := hlisted.carried r hr k (hstart ▸ hk)
    obtain ⟨seed, hseed, rfl, ht⟩ := Reached.mem_ofRows.1 hs
    exact ⟨seed, hseed, t, ht, hreached, by rw [hsets, tagsAt_eq]; rfl⟩

/-- Whom Charlie, Dani and those they follow lead to in at most two steps, but not by way of Bob. -/
theorem followed_by_distance :
    let m := MemoryStore.social
    let path : Path := .mk .morphism
      [.outgoing (.values [.iri "follows"]) ["how"], .except (.mk (.values [.iri "bob"]) [])]
    let seeds : Plan := .save (.fixed (.ofList [.ofNat 4, .ofNat 5])) ["start"]
    let morphism := path.build ⟨m.toStore, .first⟩ {} (some .input)
    let drained n :=
      ((Plan.recursive seeds morphism n ["depth"] .first).roles m.toStore).scanner.report
    let R := path.LeadsTo m.toStore {}
    let start h := h ∈ [Handle.ofNat 4, .ofNat 5]
    ∃ rows full, drained 2 .never = (.ok rows, .never) ∧ drained 0 .never = (.ok full, .never) ∧
      rows <+: full ∧ (rows.map Row.handle).Nodup ∧
      (∀ y, y ∈ rows.map Row.handle ↔ ∃ k, k ≤ 2 ∧ Distance R start y k) ∧
      (rows.Pairwise fun r q => ∀ j k, Distance R start r.handle j → Distance R start q.handle k →
        j ≤ k) := by
  intro m path seeds morphism drained R start
  have hm : m.Addressable := ⟨by decide +kernel, by decide +kernel⟩
  have hliterals : ∀ h ∈ (HandleList.ofList [.ofNat 4, .ofNat 5]).toList, h ∈ m.toStore.nodes := by
    decide +kernel
  have hseeds : seeds.Within m.toStore.unlimited := hliterals
  have hrows := (realizes_table (MemoryStore.coherent hm) hseeds).report_scan
  obtain ⟨rows, full, hbounded, hfull, hprefix, hnodup, hmem, hordered, -⟩ :=
    closure_by_distance m hm none trivial path ⟨⟨trivial, by decide⟩, trivial, trivial⟩
      ⟨trivial, trivial, trivial⟩ seeds hliterals _ hrows 2 ["depth"]
  have hstart : (seeds.table m.toStore).rows.map Row.handle = [.ofNat 4, .ofNat 5] := by
    decide +kernel
  simp only [hstart] at hmem hordered
  refine ⟨rows, full, hbounded, hfull, hprefix, hnodup, fun y => ?_, hordered⟩
  exact (hmem y).trans (exists_congr fun k => and_congr (or_iff_right (by decide)) .rfl)

end Plan

end GraphQuery
