import GraphQuery.Proofs.Reversal.Follow

/-!
# Filters by edge

Reversal turns the edges around for which a path keeps nodes, so that it keeps other nodes. So the
converse of a path is the reverse of the path with such edges turned around beforehand.
-/

namespace GraphQuery

namespace Op

/-- The operation walks, or keeps nodes for their edges. -/
def IsWalk : Op → Prop
  | .is _ | .outgoing _ _ | .incoming _ _ | .both _ _ | .has _ _ _ => True
  | _ => False

/-- Keeping nodes with an edge to somewhere is exchanged for keeping nodes with an edge from there,
and the other way round. -/
def exchanged : Op → Op
  | .has via values reverse => .has via values (!reverse)
  | op => op

theorem IsWalk.passable {ok : String → Prop} : ∀ op : Op, op.IsWalk → op.IsPassable ok := by
  intro op h
  cases op <;> first | exact trivial | exact h.elim

end Op

namespace Path

/-- The path with the edges turned around for which its operations keep nodes. -/
def exchanged (p : Path) : Path :=
  .mk p.root (p.ops.map Op.exchanged)

variable {p : Path} {g : Governing}

theorem opsFromRoot_exchanged (p : Path) :
    p.exchanged.opsFromRoot = p.opsFromRoot.map Op.exchanged := by
  obtain ⟨root, ops⟩ := p
  cases root <;> rfl

theorem forall_mem_exchanged {P : Op → Prop} (hP : ∀ op, P op → P op.exchanged)
    (h : ∀ op ∈ p.ops, P op) : ∀ op ∈ p.exchanged.ops, P op := by
  intro op hop
  obtain ⟨o, ho, rfl⟩ := List.mem_map.1 hop
  exact hP o (h o ho)

theorem builtFrom_exchanged (hp : p.BuiltFrom Op.IsWalk) : p.exchanged.BuiltFrom Op.IsWalk := by
  refine builtFrom_iff.2 (forall_mem_exchanged (fun op hop => ?_) (builtFrom_iff.1 hp))
  cases op <;> exact hop

theorem within_exchanged {A : Allowance} (hp : p.Within A) : p.exchanged.Within A := by
  refine within_iff.2 (forall_mem_exchanged (fun op hop => ?_) (within_iff.1 hp))
  cases op <;> exact hop

theorem itinerary_of_walk (hp : p.BuiltFrom Op.IsWalk) :
    p.itinerary g = p.opsFromRoot.map (Leg.of g) := by
  have hlegs : ∀ op ∈ p.opsFromRoot, (∀ via names, op ≠ .labelContext via names) ∧
      legs g op = [Leg.of g op] := by
    refine forall_mem_opsFromRoot (fun seeds => ?_) fun op hop => ?_
    · simp [legs]
    · have hkind := (builtFrom_iff.1 hp op hop).kind
      cases op <;> first | exact hkind.elim | simp [legs]
  have hlabel : ∀ via names, .labelContext via names ∉ p.opsFromRoot := fun via names hmem =>
    (hlegs _ hmem).1 via names rfl
  rw [itinerary_eq, itineraryOfOps_of_unlabelled hlabel,
    List.flatMap_congr fun op hop => (hlegs op hop).2, List.map_eq_flatMap]

/-- The reverse takes the operations back, exchanged and turned around. -/
theorem reverse_exchanged (hp : p.BuiltFrom Op.IsWalk) : p.exchanged.reverse =
    .mk .morphism (p.opsFromRoot.reverse.map fun op => op.exchanged.reversed) := by
  have hlabel : ∀ via names, .labelContext via names ∉ p.exchanged.ops := fun via names hmem =>
    (builtFrom_iff.1 (builtFrom_exchanged hp) _ hmem).kind
  rw [reverse_of_unlabelled hlabel, opsFromRoot_exchanged, ← List.map_reverse, List.map_map]
  rfl

theorem builtFrom_reverse_exchanged (hp : p.BuiltFrom Op.IsWalk) :
    p.exchanged.reverse.BuiltFrom Op.IsWalk := by
  rw [reverse_exchanged hp]
  refine builtFrom_iff.2 fun op hop => ?_
  obtain ⟨o, ho, rfl⟩ := List.mem_map.1 hop
  have hkind : o.BuiltFrom Op.IsWalk :=
    forall_mem_opsFromRoot (fun seeds => trivial) (builtFrom_iff.1 hp) o (List.mem_reverse.1 ho)
  cases o <;> exact hkind

variable {m : MemoryStore} {bindings : ClosureBindings} {x y : Handle}

theorem leadsToBy_iff_chain (hm : m.Addressable) (hkinds : p.BuiltFrom Op.IsWalk)
    (hwithin : p.Within m.toStore.harmless) (hx : x ∈ m.toStore.nodes) :
    p.LeadsToBy ⟨m.toStore, bindings⟩ {} x y ↔
      Chain (fun op => op.Links m bindings {}) p.opsFromRoot x y := by
  have hctx : ContextSound m (fun _ => True) ((Governing.own none).context m.toStore {}) :=
    contextSound_empty
  have hlinks : (fun op => Leg.Links m bindings {} (Leg.of (.own none) op)) =
      fun op => op.Links m bindings {} := by
    funext op
    have hown : (Leg.of (.own none) op).governing = .own none := ite_self _
    rw [Leg.Links, hown]
    rfl
  rw [← hlinks, ← chain_map, ← itinerary_of_walk hkinds]
  exact leadsToBy_iff (leadsAlong hm p) (.mono Op.IsWalk.passable p hkinds) hwithin
    (fun _ _ => trivial) hctx hm hx

/-- Exchanged and turned around, an operation leads back. -/
theorem links_exchanged {op : Op} (hkind : op.IsWalk) (x y : Handle) :
    op.exchanged.reversed.Links m bindings {} y x ↔ op.Links m bindings {} x y := by
  cases op with
  | has via values reverse =>
      have hsame : (Op.has via values reverse).exchanged.reversed = .has via values reverse := by
        simp [Op.exchanged, Op.reversed]
      rw [hsame]
      exact Op.stays_comm
  | is values => exact Op.stays_comm
  | outgoing via own | incoming via own => exact Plan.walks_comm
  | both via own => exact (or_congr Plan.walks_comm Plan.walks_comm).trans or_comm
  | _ => exact hkind.elim

/-- The reverse of the path with its edges turned around leads back wherever the path leads. -/
theorem leadsToBy_reverse_exchanged (hm : m.Addressable) (hkinds : p.BuiltFrom Op.IsWalk)
    (hwithin : p.Within m.toStore.harmless) (hx : x ∈ m.toStore.nodes)
    (hy : y ∈ m.toStore.nodes) :
    p.exchanged.reverse.LeadsToBy ⟨m.toStore, bindings⟩ {} y x ↔
      p.LeadsToBy ⟨m.toStore, bindings⟩ {} x y := by
  have hlinks : ∀ op ∈ p.opsFromRoot, ∀ x y,
      op.exchanged.reversed.Links m bindings {} y x ↔ op.Links m bindings {} x y :=
    forall_mem_opsFromRoot (fun seeds x y => Op.stays_comm) fun op hop =>
      links_exchanged (builtFrom_iff.1 hkinds op hop).kind
  rw [leadsToBy_iff_chain hm hkinds hwithin hx,
    leadsToBy_iff_chain hm (builtFrom_reverse_exchanged hkinds)
      (within_reverse (within_exchanged hwithin)) hy,
    reverse_exchanged hkinds]
  exact chain_reverse hlinks

end Path

namespace Session

/-- Following the reverse is the converse of following, if the edges for which the path keeps nodes
are turned around beforehand. -/
theorem follow_reverse_exchanged (m : MemoryStore) (hm : m.Addressable) (config : Config)
    (limit : Option Nat) (hlimit : effectiveLimit ⟨m.toStore, config⟩ limit = none)
    (morphism : Path) (hkinds : morphism.BuiltFrom Op.IsWalk)
    (hwithin : morphism.Within (allowance ⟨m.toStore, config⟩))
    (x y : Handle) (v w : Value) (hx : m.resolve x = some v) (hy : m.resolve y = some w)
    (plan plan' : Plan)
    (hplan : (prepare ⟨m.toStore, config⟩ (.fromValue v none morphism false) .never).1 = .ok plan)
    (hplan' : (prepare ⟨m.toStore, config⟩ (.fromValue w none morphism.exchanged true) .never).1 =
      .ok plan')
    (hfit : MergesSkips ⟨m.toStore, config⟩ (.fromValue v none morphism false))
    (hfit' : MergesSkips ⟨m.toStore, config⟩ (.fromValue w none morphism.exchanged true)) :
    ∃ rows rows',
      collect ⟨m.toStore, config⟩ (.fromValue v none morphism false) limit .never =
        (.ok rows, .never) ∧
      collect ⟨m.toStore, config⟩ (.fromValue w none morphism.exchanged true) limit .never =
        (.ok rows', .never) ∧
      (y ∈ rows.map ResultRow.id ↔ x ∈ rows'.map ResultRow.id) := by
  have hpassable {p : Path} (hp : p.BuiltFrom Op.IsWalk) :
      p.BuiltFrom (Op.IsPassable fun _ => True) := .mono Op.IsWalk.passable p hp
  have hctx : Path.ContextSound m (fun _ => True)
      (Path.scopeContext ⟨m.toStore, config.bindings⟩ none) := Path.contextSound_empty
  have hscope : Path.ScopeWithin (allowance ⟨m.toStore, config⟩) none := trivial
  have hback : morphism.exchanged.reverse.LeadsToBy ⟨m.toStore, config.bindings⟩ {} y x ↔
      morphism.LeadsToBy ⟨m.toStore, config.bindings⟩ {} x y :=
    Path.leadsToBy_reverse_exchanged hm hkinds (Path.Within.mono (allowance_le _) _ hwithin)
      (MemoryStore.mem_nodes_of_resolve hm hx) (MemoryStore.mem_nodes_of_resolve hm hy)
  exact collect_fromValue_converse hm hlimit hscope hctx (hpassable hkinds)
    (hpassable (Path.builtFrom_exchanged hkinds)) hwithin (Path.within_exchanged hwithin)
    (fun _ _ => trivial) (fun _ _ => trivial) hx hy hplan hplan' hfit hfit' hback

/-- Who follows those cool people whom Charlie follows. -/
theorem cool_company_converse :
    let store := MemoryStore.social.toStore
    let follows : Via := .values [.iri "follows"]
    let status : Via := .values [.iri "status"]
    let morphism : Path := .mk .morphism [.outgoing follows [],
      .has status [.str "cool_person"] false, .incoming follows []]
    let turned : Path := .mk .morphism [.outgoing follows [],
      .has status [.str "cool_person"] true, .incoming follows []]
    ∃ rows rows',
      collect ⟨store, { optimize := false }⟩ (.fromValue (.iri "charlie") none morphism false) none
        .never = (.ok rows, .never) ∧
      collect ⟨store, { optimize := false }⟩ (.fromValue (.iri "alice") none turned true) none
        .never = (.ok rows', .never) ∧
      (Handle.ofNat 0 ∈ rows.map ResultRow.id ↔ Handle.ofNat 4 ∈ rows'.map ResultRow.id) := by
  intro store follows status morphism turned
  have hm : MemoryStore.social.Addressable := ⟨by decide +kernel, by decide +kernel⟩
  have hwithin : morphism.Within store.harmless := ⟨trivial, trivial, trivial, trivial⟩
  exact follow_reverse_exchanged .social hm { optimize := false } none rfl morphism
    ⟨trivial, trivial, trivial, trivial⟩ hwithin (.ofNat 4) (.ofNat 0) _ _ (by decide +kernel)
    (by decide +kernel) _ _ rfl rfl nofun nofun

/-- Reversal turns the edges around for which nodes are kept, and leaves closures as they are: the
reverse leads back neither from a node that is kept for its edge nor from one that was reached any
number of steps along quads. -/
theorem kept_direction_lost :
    let kept : Path := .mk .morphism [.has (.values [.str "a"]) [.str "y"] false]
    let repeated : Path := .mk .morphism
      [.followRecursive (.mk .morphism [.outgoing (.values [.str "a"]) []]) 0 []]
    let here : ResultRow := ⟨.ofNat 0, Tags.empty.insert resultName (.ofNat 0)⟩
    let there : ResultRow := ⟨.ofNat 2, Tags.empty.insert resultName (.ofNat 2)⟩
    let query := fun v morphism reverse => collect ⟨oneLink.toStore, { optimize := false }⟩
      (.fromValue (.str v) none morphism reverse) none .never
    kept.BuiltFrom Op.IsWalk ∧
      query "x" kept false = (.ok [here], .never) ∧ query "x" kept true = (.ok [], .never) ∧
      query "x" repeated false = (.ok [there], .never) ∧
      query "y" repeated true = (.ok [], .never) := by
  intro kept repeated here there query
  have hm : oneLink.Addressable := ⟨by decide +kernel, by decide +kernel⟩
  have hforth : (Path.fromValue (.str "x") none kept false).compile oneLink.toStore .first =
      .and [.ofValues oneLink.toStore [.str "x"], .step (.ofValues oneLink.toStore [.str "y"])
        .object .subject (some (.ofValues oneLink.toStore [.str "a"])) [] none] 0 := by
    rw [Path.compile_fromValue]
    simp [kept, Path.scopeContext, Path.build, Path.buildOps, Path.lower, Path.restriction,
      LabelContext.demand]
  have hreverse : kept.reverse = .mk .morphism [.has (.values [.str "a"]) [.str "y"] true] := rfl
  have hback : (Path.fromValue (.str "x") none kept true).compile oneLink.toStore .first =
      .and [.ofValues oneLink.toStore [.str "x"], .step (.ofValues oneLink.toStore [.str "y"])
        .subject .object (some (.ofValues oneLink.toStore [.str "a"])) [] none] 0 := by
    rw [Path.compile_fromValue, if_pos rfl, hreverse]
    simp [Path.scopeContext, Path.build, Path.buildOps, Path.lower, Path.restriction,
      LabelContext.demand]
  have hself : repeated.reverse = repeated := rfl
  have hrec v reverse :
      (Path.fromValue (.str v) none repeated reverse).compile oneLink.toStore .first =
      .recursive (.ofValues oneLink.toStore [.str v])
        (.step .input .subject .object (some (.ofValues oneLink.toStore [.str "a"])) [] none)
        0 [] .first := by
    rw [Path.compile_fromValue, hself, ite_self]
    simp [repeated, Path.scopeContext, Path.build, Path.buildOps, Path.lower, Path.restriction,
      LabelContext.demand]
  have hvalues u : (Plan.ofValues oneLink.toStore [u]).Within oneLink.toStore.unlimited :=
    Plan.within_values hm [u]
  have hends fromEnd toEnd : (Plan.and [.ofValues oneLink.toStore [.str "x"],
      .step (.ofValues oneLink.toStore [.str "y"]) fromEnd toEnd
        (some (.ofValues oneLink.toStore [.str "a"])) [] none] 0).Within
      oneLink.toStore.unlimited :=
    ⟨hvalues _, ⟨hvalues _, hvalues _, trivial⟩, trivial⟩
  refine ⟨⟨trivial, trivial⟩, ?_, ?_, ?_, ?_⟩
  · exact collect_compiled hm hforth (hends _ _) (by decide +kernel)
  · exact collect_compiled hm hback (hends _ _) (by decide +kernel)
  · exact collect_compiled hm (hrec "x" false) ⟨hvalues _, trivial, hvalues _, trivial⟩
      (by decide +kernel)
  · exact collect_compiled hm (hrec "y" true) ⟨hvalues _, trivial, hvalues _, trivial⟩
      (by decide +kernel)

end Session

end GraphQuery
