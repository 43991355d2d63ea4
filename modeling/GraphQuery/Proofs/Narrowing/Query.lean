import GraphQuery.Proofs.Limited
import GraphQuery.Proofs.Narrowing.Limit
import GraphQuery.Proofs.Turning.Query

/-!
# Narrowing a limited query

An operation after a limit decides how often the results of the limit are turned at, and with it how
many of them there are. It collects only rows that someone who turns in another way is shown. Whether
the limited query itself collects them depends on whether some result within reach is lost to the
binding sets of those before it.
-/

namespace GraphQuery

/-! ## Narrowed paths -/

namespace Path

/-- A limited path and one with another operation after the limit are compiled alike, up to the
limit. -/
theorem exists_compile_limited (store : QuadStore) (bindings : ClosureBindings) (root : Root)
    (ops : List Op) (n : Nat) :
    ∃ ctx : LabelContext,
      let p := (Path.mk root ops).compile store bindings
      (Path.mk root (ops ++ [.limit n])).compile store bindings = .limit p n ∧
        ∀ op, (Path.mk root (ops ++ [.limit n, op])).compile store bindings =
          (lower ⟨store, bindings⟩ ctx (.limit p n) op).1 := by
  obtain ⟨ctx, happend⟩ := exists_lowered ⟨store, bindings⟩ {}
    ((Path.mk root []).compile store bindings) ops
  have hlast : ∀ ctx p op, buildOps ⟨store, bindings⟩ ctx p [op] =
      (lower ⟨store, bindings⟩ ctx p op).1 := by
    intro ctx p op
    rw [buildOps.eq_2]
    exact buildOps.eq_1 ..
  refine ⟨ctx, ?_, fun op => ?_⟩
  · rw [compile_mk, happend, ← compile_mk, hlast, lower]
  · rw [compile_mk, happend, ← compile_mk, buildOps.eq_2, lower]
    exact hlast ..

/-- What narrows a limited path narrows the limited feed. -/
theorem feeds_limited (store : QuadStore) (bindings : ClosureBindings) (root : Root)
    (ops : List Op) (n : Nat) :
    let feed : List Op → Feed := fun ops =>
      (((Path.mk root ops).compile store bindings).meaning store).feed
    feed (ops ++ [.limit n]) = (feed ops).limit n 0 ∧
      (∀ m, feed (ops ++ [.limit n, .skip m]) = ((feed ops).limit n 0).skip m) ∧
      ∀ op, op.Narrows → ((feed ops).limit n 0).Narrows (feed (ops ++ [.limit n, op])) := by
  intro feed
  obtain ⟨ctx, hlimited, hnarrowed⟩ := exists_compile_limited store bindings root ops n
  simp only [feed]
  refine ⟨?_, fun m => ?_, fun op hop => ?_⟩
  · rw [hlimited]
    rfl
  · rw [hnarrowed, lower]
    rfl
  · rw [hnarrowed]
    exact narrows_lower ⟨store, bindings⟩ ctx (.limit _ n) hop

end Path

namespace Session

/-- Whatever is collected for the first path is collected for the second. -/
def CollectsWithin (s : Session) (p q : Path) : Prop :=
  ∀ rows, s.collect p none .never = (.ok rows, .never) →
    ∃ rows', s.collect q none .never = (.ok rows', .never) ∧ rows ⊆ rows'

variable {s : Session} {path : Path}

theorem prepare_plain (hplain : s.config.optimize = false) (path : Path) :
    (s.prepare path .never).1 = .ok (path.compile s.store s.config.bindings) := by
  rw [prepare, hplain]
  rfl

/-- What is collected without a limit is what someone sees who turns in some way. -/
theorem exists_collect_browsed {plan : Plan} (hlimit : s.config.defaultLimit = none)
    (hplan : (s.prepare path .never).1 = .ok plan) :
    ∃ turns, s.collect path none .never =
      (((plan.meaning s.store).feed.browsed turns).collected, .never) := by
  cases hpaths : s.config.includePaths with
  | true =>
      obtain ⟨turns, hturns⟩ := (plan.meaning s.store).feed.exists_browsed_delivered
      exact ⟨turns, by rw [collect_eq hpaths hlimit hplan, hturns]⟩
  | false => exact ⟨fun _ => 0, by rw [collect_firsts hpaths hlimit hplan, Feed.skim_eq_browsed]⟩

section

variable {limited narrowed : Path} {p q : Plan} {F : Feed} {n : Nat}

/-- What is collected of a narrowed plan is shown to someone who turns in some way. -/
theorem exists_browse_of_narrows (hlimit : s.config.defaultLimit = none)
    (hq : (s.prepare narrowed .never).1 = .ok q)
    (hnarrows : (p.meaning s.store).feed.Narrows (q.meaning s.store).feed) {rows : List ResultRow}
    (hrows : s.collect narrowed none .never = (.ok rows, .never)) :
    let S := (p.roles s.store).scanner
    ∃ turns, rows ⊆ (S.browse turns S.fresh).items.flatMap Row.results := by
  intro S
  obtain ⟨turns, hturns⟩ := exists_collect_browsed hlimit hq
  rw [hturns] at hrows
  obtain ⟨turns', hseen⟩ := hnarrows.collected (congrArg Prod.fst hrows)
  have hshows : S.Shows (p.meaning s.store).feed S.fresh := (p.realizes s.store).shows
  obtain ⟨s', hbrowse⟩ := hshows.browse (p.idles s.store) rfl turns'
  exact ⟨turns', by rw [hbrowse]; exact hseen⟩

variable (hlimit : s.config.defaultLimit = none) (hp : (s.prepare limited .never).1 = .ok p)
  (hfeed : (p.meaning s.store).feed = F.limit n 0) (hn : n ≠ 0) (hF : F.Uniform)
  (hne : ∀ r ∈ F.delivered.rows, r.sets ≠ [])

include hlimit hp hfeed hn hF hne

/-- If the limit shows all that it reaches, a narrowed query collects nothing else. -/
theorem collectsWithin_of_reach (hpaths : s.config.includePaths = true)
    (hreach : (reach n F.delivered.rows).flatMap Row.results ⊆
      (cut n F.delivered.rows).flatMap Row.results)
    (hq : (s.prepare narrowed .never).1 = .ok q)
    (hnarrows : (F.limit n 0).Narrows (q.meaning s.store).feed) :
    s.CollectsWithin narrowed limited := by
  intro rows hrows
  obtain ⟨turns, hturns⟩ := exists_collect_browsed hlimit hq
  rw [hturns] at hrows
  obtain ⟨rows', hrows', hle⟩ := hnarrows.collected_limit hn hF hne hreach
    (congrArg Prod.fst hrows)
  exact ⟨rows', by rw [collect_eq hpaths hlimit hp, hfeed, hrows'], hle⟩

/-- If nothing else is collected after any skip, the limit shows all that it reaches. -/
theorem reach_of_collectsWithin (hpaths : s.config.includePaths = true)
    (herror : F.delivered.error = none) {skipped : Nat → Path} {plans : Nat → Plan}
    (hq : ∀ m, (s.prepare (skipped m) .never).1 = .ok (plans m))
    (hskipped : ∀ m, ((plans m).meaning s.store).feed = (F.limit n 0).skip m)
    (hwithin : ∀ m, s.CollectsWithin (skipped m) limited) :
    (reach n F.delivered.rows).flatMap Row.results ⊆
      (cut n F.delivered.rows).flatMap Row.results := by
  refine hF.reach_subset hn hne herror fun m rows hrows => ?_
  obtain ⟨rows', hrows', hle⟩ := hwithin m rows
    (by rw [collect_eq hpaths hlimit (hq m), hskipped m, hrows])
  rw [collect_eq hpaths hlimit hp, hfeed] at hrows'
  exact ⟨rows', congrArg Prod.fst hrows', hle⟩

/-- Without alternates a narrowed query collects nothing else. -/
theorem collectsWithin_of_firsts (hpaths : s.config.includePaths = false)
    (herror : F.delivered.error = none) (hq : (s.prepare narrowed .never).1 = .ok q)
    (hnarrows : (F.limit n 0).Narrows (q.meaning s.store).feed) :
    s.CollectsWithin narrowed limited := by
  intro rows hrows
  rw [collect_firsts hpaths hlimit hq] at hrows
  obtain ⟨rows', hrows', hle⟩ := hnarrows.skimmed_limit hn hF hne herror
    (congrArg Prod.fst hrows)
  exact ⟨rows', by rw [collect_firsts hpaths hlimit hp, hfeed, hrows'], hle⟩

end

/-- Operations after a limit, in a query that is not simplified. What an operation that only narrows
collects after a limit is shown to someone who turns through the limit in some way. If the plan
below has no other limit and binding sets are rows, the limited query itself collects all of it if
the limit shows what it reaches; and it must show that, unless the plan fails, for the limited query
to collect what is collected after each skip. If only the first binding set of a result is a row,
nothing but a failure can come between. -/
theorem narrowed_limit (store : QuadStore) (config : Config) (hplain : config.optimize = false)
    (hlimit : config.defaultLimit = none) (root : Root) (ops : List Op) (n : Nat) (hn : n ≠ 0) :
    let s : Session := ⟨store, config⟩
    let limited : Path := .mk root (ops ++ [.limit n])
    let narrowed : Op → Path := fun op => .mk root (ops ++ [.limit n, op])
    let S := ((limited.compile store config.bindings).roles store).scanner
    let below := (((Path.mk root ops).compile store config.bindings).roles store).scanner
    let full := below.drain (fun _ => none) below.fresh .never
    let reached := (reach n full.items).flatMap Row.results
    let shown := (cut n full.items).flatMap Row.results
    (∀ op rows, op.Narrows → s.collect (narrowed op) none .never = (.ok rows, .never) →
      ∃ turns, rows ⊆ (S.browse turns S.fresh).items.flatMap Row.results) ∧
    (Path.OpsWithin .boundless ops → config.includePaths = true →
      (reached ⊆ shown → ∀ op, op.Narrows → s.CollectsWithin (narrowed op) limited) ∧
      (full.error = none → (∀ m, s.CollectsWithin (narrowed (.skip m)) limited) →
        reached ⊆ shown)) ∧
    (Path.OpsWithin .boundless ops → config.includePaths = false → full.error = none →
      ∀ op, op.Narrows → s.CollectsWithin (narrowed op) limited) := by
  intro s limited narrowed S below full reached shown
  -- everything is read off the feed of the plan below the limit
  let plan := (Path.mk root ops).compile store config.bindings
  let F := (plan.meaning store).feed
  have hprepare := prepare_plain (s := s) hplain
  have hbelow : below.Shows F below.fresh := (plan.realizes store).shows
  have hne : ∀ r ∈ F.delivered.rows, r.sets ≠ [] :=
    fun r hr => hbelow.sets_ne_nil (fun _ => none) hr
  obtain ⟨hitems, herror⟩ : full.items = F.delivered.rows ∧ full.error = F.delivered.error :=
    plan.drain_delivered store
  obtain ⟨hfeed, hskipped, hnarrows⟩ :
      ((limited.compile store config.bindings).meaning store).feed = F.limit n 0 ∧
        (∀ m, (((narrowed (.skip m)).compile store config.bindings).meaning store).feed =
          (F.limit n 0).skip m) ∧
        ∀ op, op.Narrows → (F.limit n 0).Narrows
          (((narrowed op).compile store config.bindings).meaning store).feed :=
    Path.feeds_limited store config.bindings root ops n
  have hF : Path.OpsWithin .boundless ops → F.Uniform := fun hops =>
    plan.uniform store (Path.within_compile (fun _ _ _ => trivial)
      (show (Path.mk root ops).Within .boundless from hops) _)
  simp only [reached, shown, hitems, herror]
  refine ⟨fun op rows hop hrows => ?_, fun hops hpaths => ⟨fun hreach op hop => ?_,
    fun hcomplete hwithin => ?_⟩, fun hops hpaths hcomplete op hop => ?_⟩
  · exact exists_browse_of_narrows (s := s) hlimit (hprepare (narrowed op))
      (hfeed ▸ hnarrows op hop) hrows
  · exact collectsWithin_of_reach (s := s) hlimit (hprepare limited) hfeed hn (hF hops) hne hpaths
      hreach (hprepare (narrowed op)) (hnarrows op hop)
  · exact reach_of_collectsWithin (s := s) hlimit (hprepare limited) hfeed hn (hF hops) hne hpaths
      hcomplete (fun m => hprepare (narrowed (.skip m))) hskipped hwithin
  · exact collectsWithin_of_firsts (s := s) hlimit (hprepare limited) hfeed hn (hF hops) hne hpaths
      hcomplete (hprepare (narrowed op)) (hnarrows op hop)

/-- Of the first three whom Charlie and Dani follow, no one is left out by the limit whom it lets
through once they are told apart. -/
theorem followed_narrowed :
    let ops : List Op := [.outgoing (.values [.iri "follows"]) []]
    let s : Session := ⟨MemoryStore.social.toStore, { optimize := false }⟩
    s.CollectsWithin
      (.mk (.values [.iri "charlie", .iri "dani"]) (ops ++ [.limit 3, .unique]))
      (.mk (.values [.iri "charlie", .iri "dani"]) (ops ++ [.limit 3])) := by
  intro ops s
  let people : Plan := .ofValues MemoryStore.social.toStore [.iri "charlie", .iri "dani"]
  let follows : Plan := .ofValues MemoryStore.social.toStore [.iri "follows"]
  let followed : Plan := .step people .subject .object (some follows) [] none
  have hcompile : (Path.mk (.values [.iri "charlie", .iri "dani"]) ops).compile
      MemoryStore.social.toStore .first = followed := by
    simp [ops, followed, people, follows, Path.compile, Path.build, Path.buildOps, Path.lower,
      Path.restriction, LabelContext.demand]
  let below := (followed.roles MemoryStore.social.toStore).scanner
  let rows := (followed.meaning MemoryStore.social.toStore).feed.delivered.rows
  have hreach : ∀ x ∈ (reach 3 rows).flatMap Row.results, x ∈ (cut 3 rows).flatMap Row.results := by
    decide +kernel
  have hitems : (below.drain (fun _ => none) below.fresh .never).items = rows :=
    (followed.drain_delivered MemoryStore.social.toStore).1
  clear_value rows
  refine ((narrowed_limit MemoryStore.social.toStore { optimize := false } rfl rfl
    (.values [.iri "charlie", .iri "dani"]) ops 3 (by decide)).2.1 ⟨trivial, trivial⟩ rfl).1 ?_
    .unique trivial
  rw [hcompile, hitems]
  exact fun x hx => hreach x hx

/-- Turned to the end, the limit shows the first number twice; skipped without a turn, the first
number leaves it room for the second. -/
theorem skip_collects_beyond_limit :
    let numbers : Path := .mk (.values [.int 1, .int 2]) []
    let twice : Op := .and (.mk (.values [.int 1, .int 2]) [.or numbers])
    let limited : Path := .mk (.values [.int 1, .int 2]) [twice, .limit 2]
    let skipped : Path := .mk (.values [.int 1, .int 2]) [twice, .limit 2, .skip 1]
    let s : Session := ⟨twoNumbers.toStore, { optimize := false }⟩
    let first : ResultRow := ⟨.ofNat 0, Tags.empty.insert "id" (.ofNat 0)⟩
    s.collect limited none .never = (.ok [first, first], .never) ∧
      s.collect skipped none .never =
        (.ok [⟨.ofNat 1, Tags.empty.insert "id" (.ofNat 1)⟩], .never) ∧
      ¬ s.CollectsWithin skipped limited := by
  intro numbers twice limited skipped s first
  let both : Plan := .ofValues twoNumbers.toStore [.int 1, .int 2]
  let page : Plan := .limit (.and [both, .or [both, both]] 0) 2
  have hlimited : (s.prepare limited .never).1 = .ok page := by
    rw [prepare_plain rfl]
    simp [limited, twice, numbers, page, both, s, Path.compile, Path.build, Path.buildOps,
      Path.lower]
  have hskipped : (s.prepare skipped .never).1 = .ok (.skip page 1) := by
    rw [prepare_plain rfl]
    simp [skipped, twice, numbers, page, both, s, Path.compile, Path.build, Path.buildOps,
      Path.lower]
  have hshown : (page.meaning twoNumbers.toStore).feed.delivered.collected =
      .ok [first, first] := by decide +kernel
  have hleft : ((Plan.skip page 1).meaning twoNumbers.toStore).feed.delivered.collected =
      .ok [⟨.ofNat 1, Tags.empty.insert "id" (.ofNat 1)⟩] := by decide +kernel
  have hlimit : s.collect limited none .never = (.ok [first, first], .never) := by
    rw [collect_eq rfl rfl hlimited]
    exact congrArg (·, Token.never) hshown
  have hskip : s.collect skipped none .never =
      (.ok [⟨.ofNat 1, Tags.empty.insert "id" (.ofNat 1)⟩], .never) := by
    rw [collect_eq rfl rfl hskipped]
    exact congrArg (·, Token.never) hleft
  refine ⟨hlimit, hskip, fun hwithin => ?_⟩
  obtain ⟨rows, hrows, hle⟩ := hwithin _ hskip
  obtain rfl : [first, first] = rows := by
    rw [hlimit] at hrows
    exact Except.ok.inj (congrArg Prod.fst hrows)
  have hmem := hle (List.mem_singleton.2 rfl)
  exact absurd hmem (by decide)

end Session

end GraphQuery
