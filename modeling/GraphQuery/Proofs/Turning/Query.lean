import GraphQuery.Proofs.Collect
import GraphQuery.Proofs.Turning.Browse

/-!
# Values and rows of a query

Without a limit the results of a query do not depend on how far their binding sets are turned to. So
the values that a session gives are those of the results whose binding sets it collects.
-/

namespace GraphQuery

/-! ## Never turning -/

/-- Someone who never turns is delivered the results of a full drain, each with its first binding
set. -/
theorem Feed.Uniform.skim_eq {F : Feed} (hF : F.Uniform) :
    F.skim = ⟨F.delivered.rows.map fun r => r.upTo 0, F.delivered.error⟩ := by
  have hrows : F.delivered.rows.mapIdx (fun _ r => r.upTo 0) =
      F.delivered.rows.map fun r => r.upTo 0 :=
    List.mapIdx_eq_iff.2 fun _ => List.getElem?_map
  rw [F.skim_eq_browsed, hF.browsed_eq, hrows]

theorem Row.ids_upTo_zero {rows : List Row} (hne : ∀ r ∈ rows, r.sets ≠ []) :
    ((rows.map fun r => r.upTo 0).flatMap Row.results).map ResultRow.id =
      rows.map Row.handle := by
  induction rows with
  | nil => rfl
  | cons r rows ih =>
      obtain ⟨t, sets, hsets⟩ := List.exists_cons_of_ne_nil (hne r (List.mem_cons_self ..))
      have hrest := ih fun q hq => hne q (List.mem_cons_of_mem _ hq)
      simp only [List.map_cons, List.flatMap_cons, List.map_append, hrest]
      simp [Row.upTo, Row.results, hsets]

theorem Plan.drain_delivered (store : QuadStore) (p : Plan) :
    let S := (p.roles store).scanner
    let full := S.drain (fun _ => none) S.fresh .never
    full.items = (p.meaning store).feed.delivered.rows ∧
      full.error = (p.meaning store).feed.delivered.error := by
  intro S full
  have hshows : S.Shows (p.meaning store).feed S.fresh := (p.realizes store).shows
  obtain ⟨s', hfull⟩ := hshows.drain fun _ => none
  exact ⟨congrArg Run.items hfull, congrArg Run.error hfull⟩

namespace Session

variable {s : Session} {path : Path}

/-- What is collected without a limit, if only the first binding set of a result is a row. -/
theorem collect_firsts {plan : Plan} (hpaths : s.config.includePaths = false)
    (hlimit : s.config.defaultLimit = none) (hplan : (s.prepare path .never).1 = .ok plan) :
    s.collect path none .never = ((plan.meaning s.store).feed.skim.collected, .never) := by
  rw [collect, forEach, run, prepare_eq hplan, hpaths, effectiveLimit_none hlimit]
  exact (plan.realizes s.store).shows.skimmed

theorem values_eq {plan : Plan} (hlimit : s.config.defaultLimit = none)
    (hplan : (s.prepare path .never).1 = .ok plan) :
    s.values path none .never =
      ((plan.meaning s.store).feed.skim.collected.bind fun rows =>
        (rows.map ResultRow.id).mapM s.valueOf, .never) := by
  have hvisit : rowsOf (s.run path none false keepRow [] .never) =
      ((plan.meaning s.store).feed.skim.collected, .never) := by
    rw [run, prepare_eq hplan, effectiveLimit_none hlimit]
    exact (plan.realizes s.store).shows.skimmed
  rw [values, hvisit]
  simp only [List.mapM_map]
  rfl

theorem of_unprepared {e : QueryError} (hplan : (s.prepare path .never).1 = .error e) :
    s.collect path none .never = (.error e, .never) ∧
      s.values path none .never = (.error e, .never) := by
  have hprepare := prepare_eq hplan
  constructor
  · rw [collect, forEach, run, hprepare]
    rfl
  · rw [values, run, hprepare]
    rfl

/-- A plan prepared for a path without limits has none. -/
theorem prepare_boundless (hpath : path.Within .boundless) {plan : Plan}
    (hplan : (s.prepare path .never).1 = .ok plan) : plan.Within .boundless := by
  have hcompile : (path.compile s.store s.config.bindings).Within .boundless :=
    Path.within_compile (fun _ _ _ => trivial) hpath _
  unfold prepare at hplan
  split at hplan
  · exact Plan.within_normalize hcompile (Prod.ext hplan (Plan.passesLeft_never ..))
  · cases hplan
    exact hcompile

/-- What a session collects and what values it gives, in terms of the drain of the prepared plan. -/
theorem of_drained (hlimit : s.config.defaultLimit = none) (hpath : path.Within .boundless)
    {plan : Plan} (hplan : (s.prepare path .never).1 = .ok plan) :
    let S := (plan.roles s.store).scanner
    let full := S.drain (fun _ => none) S.fresh .never
    s.collect path none .never =
        (full.error.elim (.ok (full.items.flatMap fun r =>
          (if s.config.includePaths then r else r.upTo 0).results)) .error, .never) ∧
      s.values path none .never =
        (full.error.elim ((full.items.map Row.handle).mapM s.valueOf) .error, .never) := by
  intro S full
  obtain ⟨hitems, herror⟩ := plan.drain_delivered s.store
  rw [hitems, herror]
  have hF := plan.uniform s.store (prepare_boundless hpath hplan)
  have hskim := hF.skim_eq
  have hne : ∀ r ∈ (plan.meaning s.store).feed.delivered.rows, r.sets ≠ [] :=
    fun r hr => (plan.realizes s.store).shows.sets_ne_nil (fun _ => none) hr
  constructor
  · cases hpaths : s.config.includePaths with
    | true =>
        rw [collect_eq hpaths hlimit hplan, Delivered.collected]
        cases (plan.meaning s.store).feed.delivered.error <;> rfl
    | false =>
        rw [collect_firsts hpaths hlimit hplan, hskim, Delivered.collected]
        cases (plan.meaning s.store).feed.delivered.error with
        | some e => rfl
        | none => simp [Delivered.results, List.flatMap_map]
  · rw [values_eq hlimit hplan, hskim, Delivered.collected]
    cases (plan.meaning s.store).feed.delivered.error with
    | some e => rfl
    | none =>
        show ((Except.ok _).bind _, Token.never) = _
        simp only [Option.elim, Except.bind, Delivered.results, Row.ids_upTo_zero hne]

end Session

/-- Results do not depend on how their alternates are consumed. A scanner of a plan without limits,
turned `turns i` times at its `i`-th result, finds the results of a full drain and the same error in
the end; of each result it shows the first binding sets of those that the full drain collects, one
more than there were turns. So of a query without limits a session collects the binding sets of the
results of a full drain, and gives the value of each of these results, in the same order. -/
theorem QuadStore.turns_change_no_result (store : QuadStore) :
    (∀ p : Plan, p.Within .boundless →
      let S := (p.roles store).scanner
      let full := S.drain (fun _ => none) S.fresh .never
      ∀ turns : Nat → Nat,
        (S.browse turns S.fresh).items = full.items.mapIdx (fun i r => r.upTo (turns i)) ∧
          (S.browse turns S.fresh).error = full.error) ∧
    ∀ (config : Config) (path : Path), config.defaultLimit = none → path.Within .boundless →
      let s : Session := ⟨store, config⟩
      match (s.prepare path .never).1 with
      | .error e =>
          s.collect path none .never = (.error e, .never) ∧
            s.values path none .never = (.error e, .never)
      | .ok plan =>
          let S := (plan.roles store).scanner
          let full := S.drain (fun _ => none) S.fresh .never
          (∀ r ∈ full.items, r.sets ≠ []) ∧
            s.collect path none .never =
              (full.error.elim (.ok (full.items.flatMap fun r =>
                (if config.includePaths then r else r.upTo 0).results)) .error, .never) ∧
            s.values path none .never =
              (full.error.elim ((full.items.map Row.handle).mapM s.valueOf) .error, .never) := by
  constructor
  · intro p hp S full turns
    have hshows : S.Shows (p.meaning store).feed S.fresh := (p.realizes store).shows
    obtain ⟨s', hbrowse⟩ := hshows.browse (p.idles store) rfl turns
    obtain ⟨hitems, herror⟩ := p.drain_delivered store
    rw [hbrowse, hitems, herror, (p.uniform store hp).browsed_eq]
    exact ⟨rfl, rfl⟩
  · intro config path hlimit hpath s
    cases hplan : (s.prepare path .never).1 with
    | error e => exact Session.of_unprepared hplan
    | ok plan =>
        refine ⟨fun r hr => ?_, Session.of_drained (s := s) hlimit hpath hplan⟩
        rw [(plan.drain_delivered store).1] at hr
        exact (plan.realizes store).shows.sets_ne_nil (fun _ => none) hr

def Plan.doubled : Plan :=
  let both : Plan := .fixed (.ofList [.ofNat 0, .ofNat 1])
  .and [both, .or [both, both]] 0

/-- Turning past the end of each result finds the same as not turning; and of those whom Charlie
follows, each in two ways, the session gives the value of each once. -/
theorem doubled_turned :
    let S := (Plan.doubled.roles MemoryStore.social.toStore).scanner
    let s : Session := ⟨MemoryStore.social.toStore, { optimize := false }⟩
    let path : Path := .mk (.values [.iri "charlie"])
      [.outgoing (.values [.iri "follows"]) [], .and (.mk .all [.or (.mk .all [])])]
    let T := ((path.compile s.store .first).roles s.store).scanner
    let full := T.drain (fun _ => none) T.fresh .never
    (S.browse (fun _ => 0) S.fresh).error = (S.browse (fun _ => 2) S.fresh).error ∧
      s.collect path none .never =
        (full.error.elim (.ok (full.items.flatMap Row.results)) .error, .never) ∧
      s.values path none .never =
        (full.error.elim ((full.items.map Row.handle).mapM s.valueOf) .error, .never) := by
  intro S s path T full
  have hp : Plan.doubled.Within .boundless :=
    ⟨fun _ _ => trivial, ⟨fun _ _ => trivial, fun _ _ => trivial, trivial⟩, trivial⟩
  have hturns := (QuadStore.turns_change_no_result MemoryStore.social.toStore).1 Plan.doubled hp
  have hquery := (QuadStore.turns_change_no_result MemoryStore.social.toStore).2
    { optimize := false } path rfl ⟨trivial, ⟨trivial, trivial⟩, trivial⟩
  exact ⟨(hturns fun _ => 0).2.trans (hturns fun _ => 2).2.symm, hquery.2⟩

end GraphQuery
