import GraphQuery.Proofs.Reversal.Exchanged

/-!
# Closures turned around

Reversal leaves a closure as it is. What would turn it around is to turn around the path that it
repeats: the reverse of that path, with the edges turned around for which it keeps nodes, leads back
any number of steps.
-/

namespace GraphQuery

open Relation (TransGen)

namespace Path

/-- The path that goes on with another one any number of times. -/
def repeated (q : Path) (depthNames : List String) : Path :=
  .mk .morphism [.followRecursive q 0 depthNames]

variable {q : Path} {ok : String → Prop}

theorem names_exchanged (hq : ∀ n ∈ q.names, ok n) : ∀ n ∈ q.exchanged.names, ok n := by
  refine names_iff.2 (forall_mem_exchanged (fun op hop => ?_) (names_iff.1 hq))
  cases op <;> exact hop

variable {depthNames : List String}

theorem passable_repeated (hq : q.BuiltFrom Op.IsWalk) :
    (q.repeated depthNames).BuiltFrom (Op.IsPassable (· ≠ baseName)) :=
  ⟨⟨⟨rfl, fun h => h rfl⟩, .mono Op.IsWalk.passable q hq⟩, trivial⟩

theorem names_repeated (hq : ∀ n ∈ q.names, ok n) (hown : ∀ n ∈ depthNames, ok n) :
    ∀ n ∈ (q.repeated depthNames).names, ok n := by
  intro n hn
  have hn : n ∈ q.names ∨ n ∈ depthNames := by
    simpa [repeated, names, namesOfOps, Op.names] using hn
  exact hn.elim (hq n) (hown n)

section

variable {m : MemoryStore} {bindings : ClosureBindings} {x y : Handle}
  (hm : m.Addressable) (hkinds : q.BuiltFrom Op.IsWalk) (hwithin : q.Within m.toStore.harmless)
  (hnames : ∀ n ∈ q.names, n ≠ baseName) (hx : x ∈ m.toStore.nodes)
include hm hkinds hwithin hnames hx

theorem mem_nodes_of_walk (h : q.LeadsToBy ⟨m.toStore, bindings⟩ {} x y) : y ∈ m.toStore.nodes :=
  mem_nodes_of_leadsToBy (g := .caller) (leadsAlong hm q) (.mono Op.IsWalk.passable q hkinds)
    hwithin hnames contextSound_empty hm hx h

variable (hown : ∀ n ∈ depthNames, n ≠ baseName)
include hown

theorem leadsToBy_repeated :
    (q.repeated depthNames).LeadsToBy ⟨m.toStore, bindings⟩ {} x y ↔
      TransGen (fun x y => x ∈ m.toStore.nodes ∧ q.LeadsToBy ⟨m.toStore, bindings⟩ {} x y) x y := by
  have htaken : (q.repeated depthNames).itinerary .caller =
      [Leg.of .caller (.followRecursive q 0 depthNames)] := by
    simp [repeated, itinerary, itineraryOfOps, legs]
  have hchain : (q.repeated depthNames).LeadsToBy ⟨m.toStore, bindings⟩ {} x y ↔
      Chain (Leg.Links m bindings {}) ((q.repeated depthNames).itinerary .caller) x y :=
    leadsToBy_iff (g := .caller) (leadsAlong hm (q.repeated depthNames)) (passable_repeated hkinds)
      ⟨hwithin, trivial⟩ (names_repeated hnames hown) contextSound_empty hm hx
  rw [htaken, chain_singleton] at hchain
  exact hchain

/-- However often the path is repeated, its reverse with the edges turned around for which it keeps
nodes, repeated as often, leads back. -/
theorem leadsToBy_repeated_exchanged (hy : y ∈ m.toStore.nodes) :
    (q.exchanged.reverse.repeated depthNames).LeadsToBy ⟨m.toStore, bindings⟩ {} y x ↔
      (q.repeated depthNames).LeadsToBy ⟨m.toStore, bindings⟩ {} x y := by
  have hkinds' := builtFrom_reverse_exchanged hkinds
  have hwithin' := within_reverse (within_exchanged hwithin)
  have hnames' := names_reverse (names_exchanged hnames)
  -- Both lead along the same steps, since neither leads from a node to anything but nodes.
  have hswap : Function.swap (fun x y => x ∈ m.toStore.nodes ∧
        q.exchanged.reverse.LeadsToBy ⟨m.toStore, bindings⟩ {} x y) =
      fun x y => x ∈ m.toStore.nodes ∧ q.LeadsToBy ⟨m.toStore, bindings⟩ {} x y := by
    funext x y
    refine propext ⟨fun ⟨hy, h⟩ => ?_, fun ⟨hx, h⟩ => ?_⟩
    · have hx := mem_nodes_of_walk hm hkinds' hwithin' hnames' hy h
      exact ⟨hx, (leadsToBy_reverse_exchanged hm hkinds hwithin hx hy).1 h⟩
    · have hy := mem_nodes_of_walk hm hkinds hwithin hnames hx h
      exact ⟨hy, (leadsToBy_reverse_exchanged hm hkinds hwithin hx hy).2 h⟩
  rw [leadsToBy_repeated hm hkinds hwithin hnames hx hown,
    leadsToBy_repeated hm hkinds' hwithin' hnames' hy hown, ← Relation.transGen_swap, hswap]

end

end Path

namespace Session

/-- A closure is the converse of the closure of the path turned around. -/
theorem repeated_exchanged (m : MemoryStore) (hm : m.Addressable) (config : Config)
    (limit : Option Nat) (hlimit : effectiveLimit ⟨m.toStore, config⟩ limit = none) (q : Path)
    (hkinds : q.BuiltFrom Op.IsWalk) (hwithin : q.Within (allowance ⟨m.toStore, config⟩))
    (depthNames : List String) (hnames : ∀ n ∈ q.names, n ≠ baseName)
    (hown : ∀ n ∈ depthNames, n ≠ baseName)
    (x y : Handle) (v w : Value) (hx : m.resolve x = some v) (hy : m.resolve y = some w)
    (plan plan' : Plan)
    (hplan : (prepare ⟨m.toStore, config⟩ (.fromValue v none (q.repeated depthNames) false)
      .never).1 = .ok plan)
    (hplan' : (prepare ⟨m.toStore, config⟩
      (.fromValue w none (q.exchanged.reverse.repeated depthNames) false) .never).1 = .ok plan')
    (hfit : MergesSkips ⟨m.toStore, config⟩ (.fromValue v none (q.repeated depthNames) false))
    (hfit' : MergesSkips ⟨m.toStore, config⟩
      (.fromValue w none (q.exchanged.reverse.repeated depthNames) false)) :
    ∃ rows rows',
      collect ⟨m.toStore, config⟩ (.fromValue v none (q.repeated depthNames) false) limit .never =
        (.ok rows, .never) ∧
      collect ⟨m.toStore, config⟩
        (.fromValue w none (q.exchanged.reverse.repeated depthNames) false) limit .never =
        (.ok rows', .never) ∧
      (y ∈ rows.map ResultRow.id ↔ x ∈ rows'.map ResultRow.id) := by
  have hctx : Path.ContextSound m (· ≠ baseName)
      (Path.scopeContext ⟨m.toStore, config.bindings⟩ none) := Path.contextSound_empty
  have hscope : Path.ScopeWithin (allowance ⟨m.toStore, config⟩) none := trivial
  have hkinds' := Path.builtFrom_reverse_exchanged hkinds
  have hwithin' := Path.within_reverse (Path.within_exchanged hwithin)
  have hnames' := Path.names_reverse (Path.names_exchanged hnames)
  have hback : (q.exchanged.reverse.repeated depthNames).LeadsToBy ⟨m.toStore, config.bindings⟩ {}
        y x ↔ (q.repeated depthNames).LeadsToBy ⟨m.toStore, config.bindings⟩ {} x y :=
    Path.leadsToBy_repeated_exchanged hm hkinds (Path.Within.mono (allowance_le _) _ hwithin)
      hnames (MemoryStore.mem_nodes_of_resolve hm hx) hown (MemoryStore.mem_nodes_of_resolve hm hy)
  exact collect_fromValue_converse hm hlimit hscope hctx (Path.passable_repeated hkinds)
    (Path.passable_repeated hkinds') ⟨hwithin, trivial⟩ ⟨hwithin', trivial⟩
    (Path.names_repeated hnames hown) (Path.names_repeated hnames' hown) hx hy hplan hplan' hfit
    hfit' hback

end Session

end GraphQuery
