import GraphQuery.Handle
import GraphQuery.Value

/-!
# Stores

What a query may ask of a store. A store may refuse to resolve a handle that its quads mention;
`concealing` makes such a store of any other.
-/

namespace GraphQuery

/-- How much a store holds. -/
structure StoreStats where
  nodes : Nat
  quads : Nat
deriving DecidableEq, Repr

/-- A quad store, read only. -/
structure QuadStore where
  /-- The value a handle stands for. -/
  resolve : Handle → Option Value
  /-- The handle of a value; a value the store does not hold has none. -/
  intern : Value → Option Handle
  quad : QuadId → Option Quad
  /-- The quads with this handle at this end. -/
  quadsWith : Direction → Handle → List QuadId
  /-- Every value, by its handle. -/
  nodes : List Handle
  containsNode : Handle → Bool
  stats : StoreStats

/-- Handles and quads that a store pretends not to know. -/
structure Hidden where
  resolve : List Handle := []
  intern : List Handle := []
  quads : List QuadId := []

namespace QuadStore

/-- Hides values and quads but lists and counts them all the same. A handle that does not resolve is
no node. -/
def concealing (store : QuadStore) (hidden : Hidden) : QuadStore :=
  let resolve h := if hidden.resolve.contains h then none else store.resolve h
  { store with
    resolve
    intern := fun v => (store.intern v).filter fun h => !hidden.intern.contains h
    quad := fun id => if hidden.quads.contains id then none else store.quad id
    containsNode := fun h => (resolve h).isSome }

/-- Quads per node, rounded up. -/
def fanout (store : QuadStore) : Nat :=
  if store.stats.nodes = 0 then 0
  else (store.stats.quads + store.stats.nodes - 1) / store.stats.nodes

end QuadStore

end GraphQuery
