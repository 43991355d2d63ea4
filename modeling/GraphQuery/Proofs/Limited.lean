import GraphQuery.Proofs.Failure
import GraphQuery.Proofs.Path.Fill

/-!
# Limited queries

A query with a limit in it collects the same rows whether or not its plan is simplified, if the
limit is steady at what it limits and no counts of merged skips wrap around. If it is not steady,
what the limit lets through depends on how often one turns at the results below it, and a plan in
which the limit is scanned may turn less often than one in which it is probed.
-/

namespace GraphQuery

/-! ## Plans around a limit -/

namespace Plan

variable {store : QuadStore} {q : Plan}

mutual

/-- A plan without limits is steady around whatever steady plan is put into its hole. -/
theorem steady_fill (hq : q.Steady store) :
    ∀ p : Plan, p.Within store.unlimited → (p.fill q).Steady store
  | .input, _ => hq
  | .fixed _, _ | .null, _ | .all, _ => trivial
  | .and operands _, hp | .or operands, hp => steadyAll_fill hq operands hp
  | .not forbidden whole, hp => ⟨steady_fill hq forbidden hp.1, steady_fill hq whole hp.2⟩
  | .unique p, hp | .save p _, hp | .skip p _, hp | .sort p, hp | .constraint p _, hp =>
      steady_fill hq p hp
  | .filter p _, hp | .map p _, hp => steady_fill hq p hp.2
  | .recursive p _ _ _ _, hp => steady_fill hq p hp.1
  | .limit p n, hp => by
      obtain ⟨hn, hp⟩ := hp
      obtain rfl : n = 0 := hn
      exact ⟨fun rows _ => .zero rows, steady_fill hq p hp⟩
  | .step source _ _ via _ labels, hp =>
      ⟨steady_fill hq source hp.1, steadyOption_fill hq via hp.2.1,
        steadyOption_fill hq labels hp.2.2⟩

theorem steadyAll_fill (hq : q.Steady store) :
    ∀ ps : List Plan, WithinAll store.unlimited ps → SteadyAll store (fillAll ps q)
  | [], _ => trivial
  | p :: ps, hp => ⟨steady_fill hq p hp.1, steadyAll_fill hq ps hp.2⟩

theorem steadyOption_fill (hq : q.Steady store) :
    ∀ p : Option Plan, WithinOption store.unlimited p → SteadyOption store (fillOption p q)
  | none, _ => trivial
  | some p, hp => steady_fill hq p hp

end

end Plan

namespace Path

variable {target : Target} {A : Allowance}

theorem exists_context (hA : target.Names A) {ops : List Op} (ho : OpsWithin A ops)
    {ctx : LabelContext} (hctx : Plan.WithinOption A ctx.labels) (hsolid : ∀ q, Solid q ctx)
    {p : Plan} (hp : p.Within A) :
    ∃ ctx' : LabelContext, Plan.WithinOption A ctx'.labels ∧ (∀ q, Solid q ctx') ∧
      ∀ rest, buildOps target ctx p (ops ++ rest) =
        buildOps target ctx' (buildOps target ctx p ops) rest := by
  induction ops generalizing ctx p with
  | nil => exact ⟨ctx, hctx, hsolid, fun rest => by rw [List.nil_append, buildOps]⟩
  | cons op ops ih =>
      obtain ⟨hp', hctx'⟩ := within_lower hA (fun q _ => builds hA q) hctx hp ho.1
      have hsolid' : ∀ q, Solid q (lower target ctx p op).2 := fun q =>
        (fill_lower (fun r _ => fill_build target q r) (hsolid q) p).2.2
      obtain ⟨ctx', hwithin, hsolid, hrest⟩ := ih ho.2 hctx' hsolid' hp'
      refine ⟨ctx', hwithin, hsolid, fun rest => ?_⟩
      rw [List.cons_append, buildOps, buildOps]
      exact hrest rest

/-- The plan of a limited path: around the limit there is a plan that holds only what the
operations hold that follow it. -/
theorem exists_around_limit {store : QuadStore} (hA : ∀ v h, store.intern v = some h → A.literal h)
    {root : Root} {ops rest : List Op} (hops : OpsWithin A ops) (hrest : OpsWithin A rest) (n : Nat)
    (bindings : ClosureBindings) :
    ∃ around : Plan, around.Within A ∧
      (Path.mk root (ops ++ .limit n :: rest)).compile store bindings =
        around.fill (.limit ((Path.mk root ops).compile store bindings) n) := by
  let target : Target := ⟨store, bindings⟩
  let start : Plan := (Path.mk root []).compile store bindings
  have hA : target.Names A := hA
  have hbare : (Path.mk root []).Within A := trivial
  have hempty : Plan.WithinOption A ({} : LabelContext).labels := trivial
  have hstart : start.Within A := within_compile hA hbare bindings
  obtain ⟨ctx, hctx, hsolid, happend⟩ := exists_context hA hops hempty (fun q => rfl) hstart
  have hlower : lower target ctx (buildOps target {} start ops) (.limit n) =
      (.limit (buildOps target {} start ops) n, ctx) := by rw [lower]
  refine ⟨buildOps target ctx .input rest,
    within_buildOps hA (fun q _ => builds hA q) hctx trivial hrest, ?_⟩
  rw [fill_buildOps (fun r _ => fill_build target _ r) (hsolid _), compile_mk store bindings root ops,
    compile_mk, happend, buildOps, hlower]
  rfl

end Path

/-! ## Queries -/

namespace Session

/-- A query without functions on values, whose tests do not fail, whose limits are steady and whose
skips can be merged, collects the same rows in some order whether or not its plan is simplified, if
passes come to an end. -/
theorem collect_steady_perm {m : MemoryStore} (hm : m.Addressable) {config : Config}
    (hpaths : config.includePaths = true) (hlimit : config.defaultLimit = none) {path : Path}
    (hpath : path.Within m.toStore.unmapped)
    (hsteady : (path.compile m.toStore config.bindings).Steady m.toStore)
    (hfit : (path.compile m.toStore config.bindings).SkipsFit) {plan : Plan}
    (hplan : (prepare ⟨m.toStore, { config with optimize := true }⟩ path .never).1 = .ok plan) :
    ∃ rows rows',
      collect ⟨m.toStore, { config with optimize := false }⟩ path none .never =
        (.ok rows, .never) ∧
      collect ⟨m.toStore, { config with optimize := true }⟩ path none .never =
        (.ok rows', .never) ∧
      rows.Perm rows' := by
  have hs := MemoryStore.coherent hm
  have hwithin : (path.compile m.toStore config.bindings).Within m.toStore.unmapped :=
    Path.within_compile (fun _ _ => hs.mem_of_intern) hpath _
  have hp : (path.compile m.toStore config.bindings).Tabular m.toStore :=
    ⟨Plan.Within.mono m.toStore.unmapped_le _ hwithin, hsteady⟩
  have hnormal : Plan.normalize m.toStore config.maxPasses
      (path.compile m.toStore config.bindings) .never = (.ok plan, .never) :=
    Prod.ext hplan (Plan.passesLeft_never ..)
  obtain ⟨hsame, hq⟩ := Plan.kept_normalize hs hwithin hsteady hfit hnormal
  have hplain := collect_eq (s := ⟨m.toStore, { config with optimize := false }⟩) hpaths hlimit
    (show (prepare _ path .never).1 = .ok _ from rfl)
  have hsimple := collect_eq (s := ⟨m.toStore, { config with optimize := true }⟩) hpaths hlimit
    hplan
  rw [collected_tabular hs hp] at hplain
  rw [collected_tabular hs hq] at hsimple
  refine ⟨_, _, hplain, hsimple, results_perm fun h => ?_⟩
  have hscan := Plan.agrees_table hs (path.compile m.toStore config.bindings) h
  have hscan' := Plan.agrees_table hs plan h
  rw [← congrFun hsame.sets h] at hscan'
  exact hscan.symm.trans hscan'

/-- A limit is stable under simplification where it is steady. For a path and operations to follow
it, both without limits and without functions on values, whose tests do not fail and whose skips can
be merged: if a limit between them is steady at what the plan of the path delivers, the query
collects the same rows in some order whether or not its plan is simplified, if passes come to an
end. -/
theorem collect_limited_perm (m : MemoryStore) (hm : m.Addressable) (config : Config)
    (hpaths : config.includePaths = true) (hlimit : config.defaultLimit = none) (root : Root)
    (ops rest : List Op) (n : Nat) (hops : Path.OpsWithin m.toStore.mapless ops)
    (hrest : Path.OpsWithin m.toStore.mapless rest)
    (hsteady : ∀ rows,
      (((Path.mk root ops).compile m.toStore config.bindings).roles m.toStore).scanner.report
        .never = (.ok rows, .never) → SteadyAt n rows)
    (hfit : ((Path.mk root (ops ++ .limit n :: rest)).compile m.toStore config.bindings).SkipsFit)
    (plan : Plan) (hplan : (prepare ⟨m.toStore, { config with optimize := true }⟩
      (.mk root (ops ++ .limit n :: rest)) .never).1 = .ok plan) :
    ∃ rows rows',
      collect ⟨m.toStore, { config with optimize := false }⟩ (.mk root (ops ++ .limit n :: rest))
        none .never = (.ok rows, .never) ∧
      collect ⟨m.toStore, { config with optimize := true }⟩ (.mk root (ops ++ .limit n :: rest))
        none .never = (.ok rows', .never) ∧
      rows.Perm rows' := by
  have hs := MemoryStore.coherent hm
  have hle := m.toStore.mapless_le_unmapped
  have hwithin : (Path.mk root (ops ++ .limit n :: rest)).Within m.toStore.unmapped :=
    Path.opsWithin_append.2 ⟨Path.OpsWithin.mono hle ops hops, trivial,
      Path.OpsWithin.mono hle rest hrest⟩
  obtain ⟨around, haround, hcompile⟩ := Path.exists_around_limit
    (fun _ _ => hs.mem_of_intern) hops hrest n config.bindings
  have hplain := Path.within_compile (fun _ _ => hs.mem_of_intern)
    (show (Path.mk root ops).Within m.toStore.mapless from hops) config.bindings
  have hlimited : (Plan.limit ((Path.mk root ops).compile m.toStore config.bindings) n).Steady
      m.toStore :=
    ⟨hsteady, Plan.steady_of_unlimited _ (Plan.Within.mono m.toStore.mapless_le _ hplain)⟩
  refine collect_steady_perm hm hpaths hlimit hwithin ?_ hfit hplan
  rw [hcompile]
  exact Plan.steady_fill hlimited around (Plan.Within.mono m.toStore.mapless_le _ haround)

/-- The first three whom Charlie and Dani follow, and of these Bob and Dani. -/
theorem followed_limited :
    let path : Path := .mk (.values [.iri "charlie", .iri "dani"])
      [.outgoing (.values [.iri "follows"]) ["how"], .limit 3, .tag ["whom"],
        .except (.mk (.values [.iri "greg"]) []), .is [.iri "bob", .iri "dani"]]
    ∃ rows rows',
      collect ⟨MemoryStore.social.toStore, { optimize := false }⟩ path none .never =
        (.ok rows, .never) ∧
      collect ⟨MemoryStore.social.toStore, { optimize := true }⟩ path none .never =
        (.ok rows', .never) ∧
      rows.Perm rows' := by
  intro path
  have hm : MemoryStore.social.Addressable := ⟨by decide +kernel, by decide +kernel⟩
  let people : Plan := .ofValues MemoryStore.social.toStore [.iri "charlie", .iri "dani"]
  let follows : Plan := .ofValues MemoryStore.social.toStore [.iri "follows"]
  let followed : Plan := .step people .subject .object (some follows) ["how"] none
  have hfollowed : (Path.mk (.values [.iri "charlie", .iri "dani"])
      [.outgoing (.values [.iri "follows"]) ["how"]]).compile MemoryStore.social.toStore .first =
        followed := by
    simp [followed, people, follows, Path.compile, Path.build, Path.buildOps, Path.lower,
      Path.restriction, LabelContext.demand]
  have hcompile : path.compile MemoryStore.social.toStore .first =
      .and [.and [.save (.limit followed 3) ["whom"],
        .not (.ofValues MemoryStore.social.toStore [.iri "greg"]) .all] 0,
        .ofValues MemoryStore.social.toStore [.iri "bob", .iri "dani"]] 0 := by
    simp [path, followed, people, follows, Path.compile, Path.build, Path.buildOps, Path.lower,
      Path.restriction, LabelContext.demand]
  have hok : (prepare ⟨MemoryStore.social.toStore, {}⟩ path .never).1.isOk = true := by
    show ((path.compile MemoryStore.social.toStore .first).normalize _ 16 .never).1.isOk = true
    rw [hcompile]
    decide +kernel
  have hwithin : followed.Within MemoryStore.social.toStore.unlimited := by
    have hnames : Path.Target.Names ⟨MemoryStore.social.toStore, .first⟩
        MemoryStore.social.toStore.unlimited := fun _ _ => (MemoryStore.coherent hm).mem_of_intern
    exact ⟨Path.within_ofValues hnames _, Path.within_ofValues hnames _, trivial⟩
  have hsteady : SteadyAt 3 (followed.table MemoryStore.social.toStore).rows := by decide +kernel
  cases hplan : (prepare ⟨MemoryStore.social.toStore, {}⟩ path .never).1 with
  | error e =>
      rw [hplan] at hok
      cases hok
  | ok plan =>
      refine collect_limited_perm .social hm {} rfl rfl (.values [.iri "charlie", .iri "dani"])
        [.outgoing (.values [.iri "follows"]) ["how"]] [.tag ["whom"],
          .except (.mk (.values [.iri "greg"]) []), .is [.iri "bob", .iri "dani"]] 3
        ⟨trivial, trivial⟩ ⟨trivial, trivial, trivial, trivial⟩ ?_ ?_ plan hplan
      rotate_left
      · show (path.compile MemoryStore.social.toStore .first).SkipsFit
        rw [hcompile]
        decide +kernel
      intro rows hrows
      rw [hfollowed, (Plan.tabular_of_unlimited hwithin).report (MemoryStore.coherent hm)] at hrows
      obtain rfl : (followed.table MemoryStore.social.toStore).rows = rows := by simpa using hrows
      exact hsteady

def twoNumbers : MemoryStore :=
  ((MemoryStore.empty.addValue (.int 1)).2.addValue (.int 2)).2

/-- The limited branch shows both numbers if only the second is turned at, and the first number
twice if both are. Scanned, it is turned at where the last operand has the number. Once that operand
drives, the branch is recorded, and to that end turned at throughout. -/
theorem limit_depends_on_turns :
    let path : Path := .mk (.values [.int 1, .int 2])
      [.and (.mk (.values [.int 1, .int 2]) [.or (.mk (.values [.int 1, .int 2]) [])]), .limit 2,
        .is [.int 2]]
    collect ⟨twoNumbers.toStore, { optimize := false }⟩ path none .never =
        (.ok [⟨.ofNat 1, Tags.empty.insert "id" (.ofNat 1)⟩], .never) ∧
      (prepare ⟨twoNumbers.toStore, { optimize := true }⟩ path .never).1.isOk ∧
      collect ⟨twoNumbers.toStore, { optimize := true }⟩ path none .never = (.ok [], .never) := by
  intro path
  let both : Plan := .ofValues twoNumbers.toStore [.int 1, .int 2]
  let limited : Plan := .limit (.and [both, .or [both, both]] 0) 2
  let second : Plan := .ofValues twoNumbers.toStore [.int 2]
  have hcompile : path.compile twoNumbers.toStore .first = .and [limited, second] 0 := by
    simp [path, limited, both, second, Path.compile, Path.build, Path.buildOps, Path.lower]
  have hplain : (prepare ⟨twoNumbers.toStore, { optimize := false }⟩ path .never).1 =
      .ok (.and [limited, second] 0) := congrArg Except.ok hcompile
  have hsimple : (prepare ⟨twoNumbers.toStore, { optimize := true }⟩ path .never).1 =
      .ok (.and [limited, second] 1) := by
    show (Plan.normalize _ 16 (path.compile twoNumbers.toStore .first) .never).1 = _
    rw [hcompile]
    have hlt : (second.estimate twoNumbers.toStore).size.value <
        (limited.estimate twoNumbers.toStore).size.value := by decide +kernel
    rw [Plan.normalize_pair ⟨rfl, rfl, rfl, rfl⟩ ⟨rfl, rfl, rfl, rfl⟩ hlt 14]
  have hscanned : ((Plan.and [limited, second] 0).meaning
      twoNumbers.toStore).feed.delivered.collected =
        .ok [⟨.ofNat 1, Tags.empty.insert "id" (.ofNat 1)⟩] := by decide +kernel
  have hprobed : ((Plan.and [limited, second] 1).meaning
      twoNumbers.toStore).feed.delivered.collected = .ok [] := by decide +kernel
  refine ⟨?_, by rw [hsimple]; rfl, ?_⟩
  · rw [collect_eq rfl rfl hplain]
    exact congrArg (·, Token.never) hscanned
  · rw [collect_eq rfl rfl hsimple]
    exact congrArg (·, Token.never) hprobed

end Session

end GraphQuery
