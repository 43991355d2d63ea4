import GraphQuery.Constraint
import GraphQuery.Cursor.Closure

/-!
# Query plans

A plan is a tree of operators over sets of handles. The trees below an operator are its operands; a
recursive operator also holds a morphism, a plan with a hole for what it is applied to.
-/

namespace GraphQuery

/-- A caller's test on values; it may fail. -/
abbrev ValueTest : Type :=
  Value → Except String Bool

/-- A caller's function on values; it may fail. -/
abbrev ValueMap : Type :=
  Value → Except String Value

inductive Plan where
  /-- These handles, in this order. -/
  | fixed (handles : HandleList)
  /-- Nothing. -/
  | null
  /-- Every node of the store. -/
  | all
  /-- The hole of a morphism. -/
  | input
  /-- What all operands agree on. The operand at the position `primary`, or the last one if that is
  past the end, drives the scan. -/
  | and (operands : List Plan) (primary : Nat)
  /-- The results of each operand in turn. -/
  | or (operands : List Plan)
  /-- What is in `whole` but not in `forbidden`. -/
  | not (forbidden whole : Plan)
  /-- Each handle once. -/
  | unique (sub : Plan)
  /-- Binds names to the results. -/
  | save (sub : Plan) (names : List String)
  /-- At most so many rows; no bound if zero. -/
  | limit (sub : Plan) (count : Nat)
  /-- All but the first so many results. -/
  | skip (sub : Plan) (count : Nat)
  /-- In ascending order of values. -/
  | sort (sub : Plan)
  /-- From one end of quads to another. -/
  | step (source : Plan) (fromEnd toEnd : Direction) (via : Option Plan) (names : List String)
      (labels : Option Plan)
  /-- Results whose value passes a test. -/
  | filter (sub : Plan) (test : ValueTest)
  /-- The images of the results. -/
  | map (sub : Plan) (f : ValueMap)
  /-- Results whose value passes all the constraints. -/
  | constraint (sub : Plan) (constraints : List Constraint)
  /-- Everything that the morphism reaches from the results. -/
  | recursive (sub morphism : Plan) (maxDepth : Nat) (depthNames : List String)
      (bindings : ClosureBindings)

namespace Plan

instance : Inhabited Plan :=
  ⟨.null⟩

def name : Plan → String
  | .fixed _ => "fixed"
  | .null => "null"
  | .all => "all"
  | .input => "input"
  | .and _ _ => "and"
  | .or _ => "or"
  | .not _ _ => "not"
  | .unique _ => "unique"
  | .save _ _ => "save"
  | .limit _ _ => "limit"
  | .skip _ _ => "skip"
  | .sort _ => "sort"
  | .step .. => "step"
  | .filter _ _ => "filter"
  | .map _ _ => "map"
  | .constraint _ _ => "constraint"
  | .recursive .. => "recursive"

/-- The operands, in the order in which they are declared. A morphism is no operand. -/
def children : Plan → List Plan
  | .fixed _ | .null | .all | .input => []
  | .and ps _ | .or ps => ps
  | .not forbidden whole => [forbidden, whole]
  | .unique p | .save p _ | .limit p _ | .skip p _ | .sort p | .filter p _ | .map p _
  | .constraint p _ | .recursive p .. => [p]
  | .step source _ _ via _ labels => source :: (via.toList ++ labels.toList)

/-- The position of the operand that drives the scan. -/
def driver (operands : List Plan) (primary : Nat) : Nat :=
  min primary (operands.length - 1)

def isNull : Plan → Bool
  | .null => true
  | _ => false

def isAll : Plan → Bool
  | .all => true
  | _ => false

/-- The handles of these values; values that the store does not hold are dropped. -/
def ofValues (store : QuadStore) (values : List Value) : Plan :=
  .fixed (.ofList (values.filterMap store.intern))

end Plan

end GraphQuery
