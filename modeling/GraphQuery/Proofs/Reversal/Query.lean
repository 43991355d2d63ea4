import GraphQuery.Proofs.Collect
import GraphQuery.Proofs.Reversal.Converse

/-!
# Queries that follow a path

What a session answers to a query that starts at a value, puts a label context in force or not, and
goes on with a path: the nodes that the path leads to from there.
-/

namespace GraphQuery

namespace Scanner

open Session (keepRow)

variable {S : Scanner}

theorem visitResult_handle (paths : Bool) {after : Nat → S.State → Prop} {sets : List Tags}
    {s : S.State} {h : Handle} (ho : S.Offers h none after sets s) (rows : Nat)
    (x : List ResultRow) :
    ∃ n out s' k, S.visitResult ⟨paths, none⟩ keepRow s rows x .never =
        ⟨.goOn, n, out ++ x, s', .never⟩ ∧
      (∀ y, y ∈ out.map ResultRow.id ↔ y = h) ∧ after k s' := by
  cases paths with
  | true =>
      obtain ⟨s', hv, ha⟩ := visitResult_offers ho rows x
      obtain ⟨t, ht⟩ := List.exists_mem_of_ne_nil _ ho.ne_nil
      refine ⟨_, _, s', _, hv, fun y => ?_, ha⟩
      simp only [Row.results, List.map_reverse, List.mem_reverse, List.map_map, List.mem_map]
      constructor
      · rintro ⟨u, hu, rfl⟩
        rfl
      · rintro rfl
        exact ⟨t, ht, rfl⟩
  | false =>
      have hr : S.result s = some h := by
        cases sets with
        | nil => exact ho.elim
        | cons t sets => cases sets <;> exact ho.1
      exact ⟨_, [_], s, 0, visitResult_full hr rfl, by simp, ho.start⟩

/-- The rows that are delivered are at the handles that are shown. -/
theorem Shows.visit_handles (paths : Bool) {rs : List Row} {s : S.State}
    (hs : S.Shows (.ofRows rs) s) (rows : Nat) (x : List ResultRow) :
    ∃ n out, S.visitFrom ⟨paths, none⟩ keepRow s rows x .never = ⟨.ok n, out ++ x, .never⟩ ∧
      ∀ y, y ∈ out.map ResultRow.id ↔ y ∈ rs.map Row.handle := by
  induction rs generalizing s rows x with
  | nil =>
      obtain ⟨s', hn⟩ := hs
      refine ⟨rows, [], ?_, by simp⟩
      rw [Scanner.visitFrom]
      simp only [Delivery.isFull, Option.any_none, Bool.false_eq_true, if_false]
      split <;> simp_all
  | cons r rs ih =>
      obtain ⟨s', hn, ho⟩ := hs
      obtain ⟨n, out, s'', k, hv, hat, hrest⟩ := visitResult_handle paths ho rows x
      obtain ⟨n', out', hvisit, hlater⟩ := ih hrest n (out ++ x)
      refine ⟨n', out' ++ out, ?_, fun y => ?_⟩
      · rw [Scanner.visitFrom, List.append_assoc, ← hvisit]
        simp only [Delivery.isFull, Option.any_none, Bool.false_eq_true, if_false]
        split <;> simp_all
      · rw [List.map_append, List.mem_append, hlater, hat, List.map_cons, List.mem_cons, or_comm]

end Scanner

namespace Path

variable {m : MemoryStore} {bindings : ClosureBindings}

/-! ## From a value -/

def fromValue (v : Value) (scope : Scope) (morphism : Path) (reverse : Bool) : Path :=
  .mk (.values [v])
    ((scope.map fun (via, names) => Op.labelContext via names).toList ++ [.follow morphism reverse])

def scopeContext (target : Target) : Scope → LabelContext
  | none => {}
  | some (via, names) =>
      let labels := restriction target {} via
      ⟨labels, if labels.isSome then names else []⟩

theorem compile_fromValue (store : QuadStore) (bindings : ClosureBindings) (v : Value)
    (scope : Scope) (morphism : Path) (reverse : Bool) :
    (fromValue v scope morphism reverse).compile store bindings =
      build ⟨store, bindings⟩ (scopeContext ⟨store, bindings⟩ scope) (some (.ofValues store [v]))
        (if reverse then morphism.reverse else morphism) := by
  cases scope with
  | none | some =>
      cases reverse <;> simp [fromValue, scopeContext, compile, build, buildOps, lower]

theorem within_fromValue {A : Allowance} {v : Value} {scope : Scope} {morphism : Path}
    {reverse : Bool} (hscope : ScopeWithin A scope) (hmorphism : morphism.Within A) :
    (fromValue v scope morphism reverse).Within A := by
  refine within_iff.2 fun op hop => ?_
  rcases List.mem_append.1 hop with hop | hop
  · cases scope with
    | none => simp at hop
    | some context =>
        obtain rfl : op = _ := by simpa using hop
        exact hscope
  · obtain rfl : op = .follow morphism reverse := by simpa using hop
    exact hmorphism

theorem contextSound_scope (bindings : ClosureBindings) (hm : m.Addressable) {scope : Scope}
    (hscope : ScopeWithin m.toStore.harmless scope) :
    ContextSound m (fun _ => True) (scopeContext ⟨m.toStore, bindings⟩ scope) := by
  cases scope with
  | none => exact contextSound_empty
  | some context =>
      have hempty : ContextSound m (fun _ => True) {} := contextSound_empty
      refine ⟨within_restriction_of bindings hm hempty hscope, fun q => ?_, ?_⟩
      · exact fillOption_restriction (fun p _ => fill_build _ q p) rfl
      · exact ⟨fun _ _ => trivial, fun _ _ => trivial⟩

end Path

namespace Session

variable {m : MemoryStore} {config : Config} {s : Session} {path : Path} {plan : Plan}
  {limit : Option Nat} {T : Table}

/-! ## What is prepared and collected -/

/-- Without a limit, what is collected is at the handles that a drain shows. -/
theorem collect_handles {rows : List Row} (hlimit : s.effectiveLimit limit = none)
    (hplan : (s.prepare path .never).1 = .ok plan)
    (hfeed : (plan.meaning s.store).feed = .ofRows rows) :
    ∃ out, s.collect path limit .never = (.ok out, .never) ∧
      ∀ y, y ∈ out.map ResultRow.id ↔ y ∈ rows.map Row.handle := by
  have hprepare := prepare_eq hplan
  have hshows := (plan.realizes s.store).shows
  rw [hfeed] at hshows
  obtain ⟨n, out, hvisit, hat⟩ := hshows.visit_handles s.config.includePaths 0 []
  refine ⟨out.reverse, ?_, by simpa using hat⟩
  rw [collect, forEach, run, hprepare, hlimit]
  dsimp only
  rw [Scanner.visit, hvisit]
  simp [rowsOf, Except.map]

/-- What queries may hold for their results to be the same however they are prepared. -/
def allowance (s : Session) : Allowance :=
  if s.config.optimize then s.store.mapless else s.store.harmless

theorem allowance_le (s : Session) : s.allowance.Le s.store.harmless := by
  have hle := s.store.mapless_le_unmapped
  unfold allowance
  split
  · exact ⟨fun _ _ => trivial, fun _ => hle.test _, fun _ => False.elim, fun _ => hle.literal _⟩
  · exact ⟨fun _ => id, fun _ => id, fun _ => id, fun _ => id⟩

theorem mem_handles_table (hs : m.toStore.Coherent) {p : Plan} (hp : p.Within m.toStore.unlimited)
    (y : Handle) :
    y ∈ (p.table m.toStore).rows.map Row.handle ↔ ∃ t, t ∈ (p.table m.toStore).sets y := by
  have hne := fun r hr => ((Plan.tabular_of_unlimited hp).safeRows hs r hr).2
  have hperm := (Plan.agrees_table hs p).sets_perm y
  rw [Path.mem_handles_entries hne]
  simp only [hperm.mem_iff, List.mem_map, List.mem_filter, decide_eq_true_eq]
  constructor
  · rintro ⟨t, ht⟩
    exact ⟨t, _, ⟨ht, rfl⟩, rfl⟩
  · rintro ⟨t, r, ⟨hr, rfl⟩, rfl⟩
    exact ⟨_, hr⟩

/-- The prepared plan shows the same handles. -/
theorem exists_scans_prepared (hm : m.Addressable)
    (hplan : (prepare ⟨m.toStore, config⟩ path .never).1 = .ok plan)
    (hpath : path.Within (allowance ⟨m.toStore, config⟩))
    (hfit : MergesSkips ⟨m.toStore, config⟩ path)
    (hp : (path.compile m.toStore config.bindings).Scans m T) :
    ∃ U, plan.Scans m U ∧ ∀ y, y ∈ U.rows.map Row.handle ↔ y ∈ T.rows.map Row.handle := by
  have hs := MemoryStore.coherent hm
  obtain ⟨optimize, maxPasses, bindings, defaultLimit, includePaths⟩ := config
  cases optimize with
  | false =>
      obtain rfl : path.compile m.toStore bindings = plan := Except.ok.inj hplan
      exact ⟨T, hp, fun y => .rfl⟩
  | true =>
      have hcompiled : (path.compile m.toStore bindings).Within m.toStore.mapless :=
        Path.within_compile (fun _ _ => hs.mem_of_intern) hpath _
      have hnormal : Plan.normalize m.toStore maxPasses (path.compile m.toStore bindings) .never =
          (.ok plan, .never) := Prod.ext hplan (Plan.passesLeft_never ..)
      have hbefore := Plan.Within.mono m.toStore.mapless_le _ hcompiled
      have hafter :=
        Plan.Within.mono m.toStore.mapless_le _ (Plan.within_normalize hcompiled hnormal)
      have hrows : T.rows = ((path.compile m.toStore bindings).table m.toStore).rows := by
        have hreport := (Path.scans_table hm hbefore).report
        rw [hp.report] at hreport
        simpa using hreport
      refine ⟨_, Path.scans_table hm hafter, fun y => ?_⟩
      rw [hrows, mem_handles_table hs hafter, mem_handles_table hs hbefore,
        (Plan.same_normalize hs hcompiled (hfit rfl) hnormal).sets]

theorem collect_compiled (hm : m.Addressable) (hcompile : path.compile m.toStore .first = plan)
    (hwithin : plan.Within m.toStore.unlimited) {rows : List ResultRow}
    (hrows : (plan.table m.toStore).rows.flatMap Row.results = rows) :
    collect ⟨m.toStore, { optimize := false }⟩ path none .never = (.ok rows, .never) := by
  have hplan : (prepare ⟨m.toStore, { optimize := false }⟩ path .never).1 = .ok plan :=
    congrArg Except.ok hcompile
  rw [collect_eq rfl rfl hplan, collected_table (MemoryStore.coherent hm) hwithin, hrows]

/-- What is collected is where the path leads from the value. -/
theorem collect_fromValue (hm : m.Addressable)
    (hlimit : effectiveLimit ⟨m.toStore, config⟩ limit = none) {ok : String → Prop} {scope : Scope}
    {morphism : Path} {reverse : Bool}
    (hscope : Path.ScopeWithin (allowance ⟨m.toStore, config⟩) scope)
    (hctx : Path.ContextSound m ok (Path.scopeContext ⟨m.toStore, config.bindings⟩ scope))
    (hkinds : morphism.BuiltFrom (Op.IsPassable ok))
    (hwithin : morphism.Within (allowance ⟨m.toStore, config⟩))
    (hnames : ∀ n ∈ morphism.names, ok n) {v : Value} {x : Handle} (hx : m.resolve x = some v)
    (hplan : (prepare ⟨m.toStore, config⟩ (.fromValue v scope morphism reverse) .never).1 =
      .ok plan)
    (hfit : MergesSkips ⟨m.toStore, config⟩ (.fromValue v scope morphism reverse)) :
    ∃ rows, collect ⟨m.toStore, config⟩ (.fromValue v scope morphism reverse) limit .never =
        (.ok rows, .never) ∧
      ∀ y, y ∈ rows.map ResultRow.id ↔
        (if reverse then morphism.reverse else morphism).LeadsToBy ⟨m.toStore, config.bindings⟩
          (Path.scopeContext ⟨m.toStore, config.bindings⟩ scope) x y := by
  have hharmless := Path.Within.mono (allowance_le _) _ hwithin
  obtain ⟨hkinds', hwithin', hnames'⟩ :
      (if reverse then morphism.reverse else morphism).BuiltFrom (Op.IsPassable ok) ∧
        (if reverse then morphism.reverse else morphism).Within m.toStore.harmless ∧
          ∀ n ∈ (if reverse then morphism.reverse else morphism).names, ok n := by
    cases reverse with
    | false => exact ⟨hkinds, hharmless, hnames⟩
    | true =>
        exact ⟨hkinds.reverse_passable, Path.within_reverse hharmless, Path.names_reverse hnames⟩
  have hintern : m.toStore.intern v = some x := (MemoryStore.resolve_eq_some_iff hm).1 hx
  have hnode : x ∈ m.toStore.nodes := MemoryStore.mem_nodes_of_resolve hm hx
  have hstart : Plan.ofValues m.toStore [v] = .fixed (.ofList [x]) := by
    simp [Plan.ofValues, hintern]
  have hleads : Path.LeadsAlong m ok config.bindings
      (if reverse then morphism.reverse else morphism) := Path.leadsAlong hm _
  obtain ⟨T, hT, -⟩ := hleads hkinds' hwithin' hnames' _ .caller _ _ hctx
    (Path.scans_table hm (Path.within_node hnode))
  have hcompile := Path.compile_fromValue m.toStore config.bindings v scope morphism reverse
  rw [hstart] at hcompile
  obtain ⟨U, hU, hshown⟩ := exists_scans_prepared hm hplan (Path.within_fromValue hscope hwithin)
    hfit (hcompile ▸ hT)
  obtain ⟨rows, hcollect, hat⟩ := collect_handles hlimit hplan hU.feed
  exact ⟨rows, hcollect, fun y =>
    (hat y).trans ((hshown y).trans (Path.leadsToBy_iff_of_scans hT).symm)⟩

/-- Two queries are converse if of the paths that they follow one leads back where the other leads.
-/
theorem collect_fromValue_converse (hm : m.Addressable)
    (hlimit : effectiveLimit ⟨m.toStore, config⟩ limit = none) {ok : String → Prop} {scope : Scope}
    (hscope : Path.ScopeWithin (allowance ⟨m.toStore, config⟩) scope)
    (hctx : Path.ContextSound m ok (Path.scopeContext ⟨m.toStore, config.bindings⟩ scope))
    {forth back : Path} {reverse : Bool} (hkinds : forth.BuiltFrom (Op.IsPassable ok))
    (hkinds' : back.BuiltFrom (Op.IsPassable ok))
    (hwithin : forth.Within (allowance ⟨m.toStore, config⟩))
    (hwithin' : back.Within (allowance ⟨m.toStore, config⟩)) (hnames : ∀ n ∈ forth.names, ok n)
    (hnames' : ∀ n ∈ back.names, ok n) {x y : Handle} {v w : Value} (hx : m.resolve x = some v)
    (hy : m.resolve y = some w) {plan' : Plan}
    (hplan : (prepare ⟨m.toStore, config⟩ (.fromValue v scope forth false) .never).1 = .ok plan)
    (hplan' : (prepare ⟨m.toStore, config⟩ (.fromValue w scope back reverse) .never).1 = .ok plan')
    (hfit : MergesSkips ⟨m.toStore, config⟩ (.fromValue v scope forth false))
    (hfit' : MergesSkips ⟨m.toStore, config⟩ (.fromValue w scope back reverse))
    (hback : (if reverse then back.reverse else back).LeadsToBy ⟨m.toStore, config.bindings⟩
        (Path.scopeContext ⟨m.toStore, config.bindings⟩ scope) y x ↔
      forth.LeadsToBy ⟨m.toStore, config.bindings⟩
        (Path.scopeContext ⟨m.toStore, config.bindings⟩ scope) x y) :
    ∃ rows rows',
      collect ⟨m.toStore, config⟩ (.fromValue v scope forth false) limit .never =
        (.ok rows, .never) ∧
      collect ⟨m.toStore, config⟩ (.fromValue w scope back reverse) limit .never =
        (.ok rows', .never) ∧
      (y ∈ rows.map ResultRow.id ↔ x ∈ rows'.map ResultRow.id) := by
  obtain ⟨rows, hcollect, hat⟩ :=
    collect_fromValue hm hlimit hscope hctx hkinds hwithin hnames hx hplan hfit
  obtain ⟨rows', hcollect', hat'⟩ :=
    collect_fromValue hm hlimit hscope hctx hkinds' hwithin' hnames' hy hplan' hfit'
  exact ⟨rows, rows', hcollect, hcollect', (hat y).trans (hback.symm.trans (hat' x).symm)⟩

end Session

end GraphQuery
