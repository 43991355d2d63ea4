import GraphQuery.Proofs.Reversal.Query
import GraphQuery.Store.Social

/-!
# Following a path and its reverse

A query that follows a path from one value finds another one exactly if the query that follows the
reverse from there finds the first, under the same label context: without reservation where the path
puts no label contexts in force, and otherwise if reversal keeps these with their steps.
-/

namespace GraphQuery

def Scope.isLifted : Scope → Bool
  | none | some (.all, _) => true
  | some _ => false

namespace Session

variable {m : MemoryStore} {config : Config} {limit : Option Nat} {scope : Scope} {morphism : Path}

/-- If its reverse takes the same legs back, following a path and following its reverse are
converse. -/
theorem collect_converse (hm : m.Addressable)
    (hlimit : effectiveLimit ⟨m.toStore, config⟩ limit = none)
    (hscope : Path.ScopeWithin (allowance ⟨m.toStore, config⟩) scope)
    (hkinds : morphism.BuiltFrom Op.IsReversible)
    (hwithin : morphism.Within (allowance ⟨m.toStore, config⟩)) {g : Governing}
    (hg : g.context m.toStore (Path.scopeContext ⟨m.toStore, config.bindings⟩ scope) =
      Path.scopeContext ⟨m.toStore, config.bindings⟩ scope)
    (hback : morphism.reverse.itinerary g = Leg.back (morphism.itinerary g)) {x y : Handle}
    {v w : Value} (hx : m.resolve x = some v) (hy : m.resolve y = some w) {plan plan' : Plan}
    (hplan : (prepare ⟨m.toStore, config⟩ (.fromValue v scope morphism false) .never).1 = .ok plan)
    (hplan' : (prepare ⟨m.toStore, config⟩ (.fromValue w scope morphism true) .never).1 =
      .ok plan')
    (hfit : MergesSkips ⟨m.toStore, config⟩ (.fromValue v scope morphism false))
    (hfit' : MergesSkips ⟨m.toStore, config⟩ (.fromValue w scope morphism true)) :
    ∃ rows rows',
      collect ⟨m.toStore, config⟩ (.fromValue v scope morphism false) limit .never =
        (.ok rows, .never) ∧
      collect ⟨m.toStore, config⟩ (.fromValue w scope morphism true) limit .never =
        (.ok rows', .never) ∧
      (y ∈ rows.map ResultRow.id ↔ x ∈ rows'.map ResultRow.id) := by
  have hpassable : morphism.BuiltFrom (Op.IsPassable fun _ => True) :=
    .mono Op.IsReversible.passable _ hkinds
  have hctx := Path.contextSound_scope config.bindings hm
    (Path.ScopeWithin.mono (allowance_le _) hscope)
  have hreverse := Path.leadsToBy_reverse config.bindings hm hkinds
    (Path.Within.mono (allowance_le _) _ hwithin) (hg ▸ hctx) hback
    (MemoryStore.mem_nodes_of_resolve hm hx) (MemoryStore.mem_nodes_of_resolve hm hy)
  rw [hg] at hreverse
  exact collect_fromValue_converse hm hlimit hscope hctx hpassable hpassable hwithin hwithin
    (fun _ _ => trivial) (fun _ _ => trivial) hx hy hplan hplan' hfit hfit' hreverse

/-- Following the reverse is the converse of following. -/
theorem follow_reverse_converse (m : MemoryStore) (hm : m.Addressable) (config : Config)
    (limit : Option Nat)
    (hlimit : effectiveLimit ⟨m.toStore, { config with optimize := false }⟩ limit = none)
    (scope : Scope) (hscope : Path.ScopeWithin m.toStore.harmless scope) (morphism : Path)
    (hkinds : morphism.BuiltFrom Op.IsInvertible) (hwithin : morphism.Within m.toStore.harmless)
    (x y : Handle) (v w : Value) (hx : m.resolve x = some v) (hy : m.resolve y = some w) :
    ∃ rows rows',
      collect ⟨m.toStore, { config with optimize := false }⟩ (.fromValue v scope morphism false)
        limit .never = (.ok rows, .never) ∧
      collect ⟨m.toStore, { config with optimize := false }⟩ (.fromValue w scope morphism true)
        limit .never = (.ok rows', .never) ∧
      (y ∈ rows.map ResultRow.id ↔ x ∈ rows'.map ResultRow.id) :=
  collect_converse hm hlimit hscope (.mono (fun _ => .inl) _ hkinds) hwithin (g := .caller) rfl
    (Path.itinerary_reverse_of_unlabelled Op.IsInvertible.ne_labelContext hkinds) hx hy rfl rfl
    nofun nofun

/-- Who has the same status as Emily in the smart graph, but for Bob. -/
theorem same_status_converse :
    let store := MemoryStore.social.toStore
    let status : Path := .mk .morphism [.outgoing (.values [.iri "status"]) ["as"]]
    let morphism : Path := .mk .morphism [.outgoing (.values [.iri "status"]) [],
      .filter fun v => .ok (!v.isReference), .follow status true,
      .except (.mk (.values [.iri "bob"]) [.limit 1])]
    let scope : Scope := some (.values [.iri "smart_graph"], ["graph"])
    ∃ rows rows',
      collect ⟨store, { optimize := false }⟩ (.fromValue (.iri "emily") scope morphism false) none
        .never = (.ok rows, .never) ∧
      collect ⟨store, { optimize := false }⟩ (.fromValue (.iri "greg") scope morphism true) none
        .never = (.ok rows', .never) ∧
      (Handle.ofNat 6 ∈ rows.map ResultRow.id ↔ Handle.ofNat 7 ∈ rows'.map ResultRow.id) := by
  intro store status morphism scope
  have hwithin : morphism.Within store.harmless :=
    ⟨trivial, fun _ v _ => ⟨_, rfl⟩, ⟨trivial, trivial⟩, ⟨trivial, trivial⟩, trivial⟩
  exact follow_reverse_converse .social ⟨by decide +kernel, by decide +kernel⟩ {} none rfl scope
    trivial morphism ⟨trivial, trivial, ⟨trivial, trivial, trivial⟩, trivial, trivial⟩ hwithin
    (.ofNat 7) (.ofNat 6) _ _ (by decide +kernel) (by decide +kernel)

/-- Label contexts that reversal keeps with their steps are in force for these backwards too, if
skips can be merged where plans are simplified. -/
theorem follow_reverse_keeps_labels (m : MemoryStore) (hm : m.Addressable) (config : Config)
    (limit : Option Nat) (hlimit : effectiveLimit ⟨m.toStore, config⟩ limit = none)
    (scope : Scope) (hscope : Path.ScopeWithin (allowance ⟨m.toStore, config⟩) scope)
    (morphism : Path) (hkinds : morphism.BuiltFrom Op.IsLabelledWalk)
    (hwithin : morphism.Within (allowance ⟨m.toStore, config⟩))
    (hkeeps : morphism.KeepsLabels scope.isLifted) (x y : Handle) (v w : Value)
    (hx : m.resolve x = some v) (hy : m.resolve y = some w) (plan plan' : Plan)
    (hplan : (prepare ⟨m.toStore, config⟩ (.fromValue v scope morphism false) .never).1 = .ok plan)
    (hplan' : (prepare ⟨m.toStore, config⟩ (.fromValue w scope morphism true) .never).1 =
      .ok plan')
    (hfit : MergesSkips ⟨m.toStore, config⟩ (.fromValue v scope morphism false))
    (hfit' : MergesSkips ⟨m.toStore, config⟩ (.fromValue w scope morphism true)) :
    ∃ rows rows',
      collect ⟨m.toStore, config⟩ (.fromValue v scope morphism false) limit .never =
        (.ok rows, .never) ∧
      collect ⟨m.toStore, config⟩ (.fromValue w scope morphism true) limit .never =
        (.ok rows', .never) ∧
      (y ∈ rows.map ResultRow.id ↔ x ∈ rows'.map ResultRow.id) := by
  have hreversible : morphism.BuiltFrom Op.IsReversible := .mono (fun _ => .inr) _ hkinds
  have hback := fun (g : Governing) (hg : scope.isLifted = true → g = .own none) =>
    Path.itinerary_reverse_of_keepsLabels Op.IsLabelledWalk.isStep hg hkinds hkeeps
  by_cases hlifted : scope.isLifted = true
  · -- No label context is in force at the start, just as if they were lifted there.
    refine collect_converse hm hlimit hscope hreversible hwithin ?_ (hback (.own none) fun _ => rfl)
      hx hy hplan hplan' hfit hfit'
    match scope, hlifted with
    | none, _ => rfl
    | some (.all, _), _ =>
        simp [Path.scopeContext, Path.restriction, Governing.context, LabelScope.context]
  · exact collect_converse hm hlimit hscope hreversible hwithin rfl
      (hback .caller fun h => (hlifted h).elim) hx hy hplan hplan' hfit hfit'

/-- Who has the same status as Emily in the smart graph, whatever the caller's label context. -/
theorem same_smart_status_converse :
    let store := MemoryStore.social.toStore
    let status : Path := .mk .morphism
      [.labelContext (.values [.iri "smart_graph"]) [], .outgoing (.values [.iri "status"]) []]
    let morphism : Path := .mk .morphism [.follow status false, .follow status true]
    let scope : Scope := some (.values [.iri "follows"], [])
    ∃ rows rows',
      collect ⟨store, {}⟩ (.fromValue (.iri "emily") scope morphism false) none .never =
        (.ok rows, .never) ∧
      collect ⟨store, {}⟩ (.fromValue (.iri "greg") scope morphism true) none .never =
        (.ok rows', .never) ∧
      (Handle.ofNat 6 ∈ rows.map ResultRow.id ↔ Handle.ofNat 7 ∈ rows'.map ResultRow.id) := by
  intro store status morphism scope
  have hstatus : status.reverse = .mk .morphism
      [.labelContext (.values [.iri "smart_graph"]) [], .incoming (.values [.iri "status"]) []] :=
    rfl
  have hself : morphism.reverse = morphism := rfl
  have hcompile : ∀ v reverse, (Path.fromValue v scope morphism reverse).compile store .first =
      let via := some (.ofValues store [.iri "status"])
      let labels := some (.ofValues store [.iri "smart_graph"])
      .step (.step (.ofValues store [v]) .subject .object via [] labels)
        .object .subject via [] labels := by
    intro v reverse
    rw [Path.compile_fromValue, hself, ite_self]
    unfold morphism
    simp [Path.build, Path.buildOps, Path.lower, Path.restriction, LabelContext.demand, hstatus]
    simp [status, Path.build, Path.buildOps, Path.lower, Path.restriction, LabelContext.demand]
  have hprepared : ∀ v ∈ [Value.iri "emily", .iri "greg"], ∀ reverse,
      ∃ plan, (prepare ⟨store, {}⟩ (.fromValue v scope morphism reverse) .never).1 = .ok plan := by
    intro v hv reverse
    have hok :
        (prepare ⟨store, {}⟩ (.fromValue v scope morphism reverse) .never).1.isOk = true := by
      show ((Path.compile _ store .first).normalize _ 16 .never).1.isOk = true
      rw [hcompile]
      revert v
      decide +kernel
    cases hplan : (prepare ⟨store, {}⟩ (.fromValue v scope morphism reverse) .never).1 with
    | ok plan => exact ⟨plan, rfl⟩
    | error e =>
        rw [hplan] at hok
        cases hok
  have hfit v reverse : MergesSkips ⟨store, {}⟩ (.fromValue v scope morphism reverse) := by
    intro _
    show ((Path.fromValue v scope morphism reverse).compile store .first).SkipsFit
    rw [hcompile]
    exact Plan.skipsFit_of_eq_zero rfl
  obtain ⟨plan, hplan⟩ := hprepared (.iri "emily") (by simp) false
  obtain ⟨plan', hplan'⟩ := hprepared (.iri "greg") (by simp) true
  have hlabels : status.LabelsItsSteps :=
    ⟨by simp [Path.scopedOps, Op.isStep], trivial, trivial, trivial⟩
  have hkeeps : morphism.KeepsLabels false :=
    .inr ⟨⟨hlabels, hlabels, trivial⟩, .inr (by simp [Path.scopedOps, Op.isStep])⟩
  have hkinds : status.BuiltFrom Op.IsLabelledWalk := ⟨trivial, trivial, trivial⟩
  have hwithin : status.Within store.mapless := ⟨trivial, trivial, trivial⟩
  exact follow_reverse_keeps_labels .social ⟨by decide +kernel, by decide +kernel⟩ {} none rfl
    scope trivial morphism ⟨⟨trivial, hkinds⟩, ⟨trivial, hkinds⟩, trivial⟩
    ⟨hwithin, hwithin, trivial⟩ hkeeps (.ofNat 7) (.ofNat 6) _ _ (by decide +kernel)
    (by decide +kernel) plan plan' hplan hplan' (hfit _ _) (hfit _ _)

def oneLink : MemoryStore :=
  ((MemoryStore.empty.addTriple (.str "x") (.str "a") (.str "y")).2.addValue (.str "g")).2

/-- Reversal takes a lifted label context for that of the caller. Where the caller has one in force,
the path leads along a quad without a label, and its reverse does not lead back. -/
theorem lifted_labels_lost :
    let morphism : Path := .mk .morphism [.labelContext .all [], .outgoing (.values [.str "a"]) []]
    let scope : Scope := some (.values [.str "g"], [])
    morphism.BuiltFrom Op.IsLabelledWalk ∧
      collect ⟨oneLink.toStore, { optimize := false }⟩ (.fromValue (.str "x") scope morphism false)
        none .never = (.ok [⟨.ofNat 2, Tags.empty.insert resultName (.ofNat 2)⟩], .never) ∧
      collect ⟨oneLink.toStore, { optimize := false }⟩ (.fromValue (.str "y") scope morphism true)
        none .never = (.ok [], .never) := by
  intro morphism scope
  have hforth : (Path.fromValue (.str "x") scope morphism false).compile oneLink.toStore .first =
      .step (.ofValues oneLink.toStore [.str "x"]) .subject .object
        (some (.ofValues oneLink.toStore [.str "a"])) [] none := by
    rw [Path.compile_fromValue]
    simp [morphism, Path.build, Path.buildOps, Path.lower, Path.restriction, LabelContext.demand]
  have hreverse : morphism.reverse = .mk .morphism [.incoming (.values [.str "a"]) []] := rfl
  have hback : (Path.fromValue (.str "y") scope morphism true).compile oneLink.toStore .first =
      .step (.ofValues oneLink.toStore [.str "y"]) .object .subject
        (some (.ofValues oneLink.toStore [.str "a"])) []
        (some (.ofValues oneLink.toStore [.str "g"])) := by
    rw [Path.compile_fromValue, if_pos rfl, hreverse]
    simp [scope, Path.scopeContext, Path.build, Path.buildOps, Path.lower, Path.restriction,
      LabelContext.demand]
  have hm : oneLink.Addressable := ⟨by decide +kernel, by decide +kernel⟩
  have hvalues u : (Plan.ofValues oneLink.toStore [u]).Within oneLink.toStore.unlimited :=
    Plan.within_values hm [u]
  refine ⟨⟨trivial, trivial, trivial⟩, ?_, ?_⟩
  · exact collect_compiled hm hforth ⟨hvalues _, hvalues _, trivial⟩ (by decide +kernel)
  · exact collect_compiled hm hback ⟨hvalues _, hvalues _, hvalues _⟩ (by decide +kernel)

end Session

end GraphQuery
