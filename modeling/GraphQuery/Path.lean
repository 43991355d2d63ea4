import GraphQuery.Plan

/-!
# Paths

A path is a start and a list of operations, each of which takes the nodes reached so far to further
nodes. Operations may hold paths of their own.
-/

namespace GraphQuery

/-- Where a path starts. -/
inductive Root where
  | values (seeds : List Value)
  | all
  /-- The start is supplied where the path is applied. -/
  | morphism

mutual

/-- A restriction on the predicates, or the labels, of the quads walked. -/
inductive Via where
  /-- No restriction. -/
  | all
  | values (values : List Value)
  /-- What a path reaches on its own. -/
  | path (p : Path)

inductive Op where
  /-- Keeps these values only. -/
  | is (values : List Value)
  /-- From the subject of quads to the object. -/
  | outgoing (via : Via) (tags : List String)
  /-- From the object of quads to the subject. -/
  | incoming (via : Via) (tags : List String)
  /-- Either way. -/
  | both (via : Via) (tags : List String)
  | and (other : Path)
  | or (other : Path)
  /-- Keeps what the other path does not reach. -/
  | except (other : Path)
  /-- Keeps the nodes with a quad to one of the values, or from one if `reverse` is set; to any node
  if there are no values. -/
  | has (via : Via) (values : List Value) (reverse : Bool)
  /-- Goes on with another path, or with its reverse. -/
  | follow (morphism : Path) (reverse : Bool)
  /-- Goes on with another path any number of times, up to `maxDepth` if that is not zero. -/
  | followRecursive (morphism : Path) (maxDepth : Nat) (depthTags : List String)
  | unique
  | limit (count : Nat)
  | skip (count : Nat)
  | order
  | tag (tags : List String)
  /-- Restricts the labels of the quads walked by the operations that follow. -/
  | labelContext (via : Via) (tags : List String)
  | constrain (c : Constraint)
  | filter (test : ValueTest)
  | map (f : ValueMap)
  | inPredicates
  | outPredicates
  | labels

/-- A start and operations in the order in which they are applied. -/
inductive Path where
  | mk (root : Root) (ops : List Op)

end

namespace Op

def name : Op → String
  | .is _ => "is"
  | .outgoing _ _ => "out"
  | .incoming _ _ => "in"
  | .both _ _ => "both"
  | .and _ => "and"
  | .or _ => "or"
  | .except _ => "except"
  | .has _ _ false => "has"
  | .has _ _ true => "has_reverse"
  | .follow _ false => "follow"
  | .follow _ true => "follow_reverse"
  | .followRecursive _ _ _ => "follow_recursive"
  | .unique => "unique"
  | .limit _ => "limit"
  | .skip _ => "skip"
  | .order => "order"
  | .tag _ => "tag"
  | .labelContext _ _ => "label_context"
  | .constrain _ => "constrain"
  | .filter _ => "filter"
  | .map _ => "map"
  | .inPredicates => "in_predicates"
  | .outPredicates => "out_predicates"
  | .labels => "labels"

/-- Whether the operation walks quads under the label context. -/
def isStep : Op → Bool
  | .outgoing _ _ | .incoming _ _ | .both _ _ | .has _ _ _ => true
  | _ => false

/-- The operation walked the other way; one that has no direction is its own reverse. -/
def reversed : Op → Op
  | .outgoing via tags => .incoming via tags
  | .incoming via tags => .outgoing via tags
  | .has via values reverse => .has via values (!reverse)
  | .follow morphism reverse => .follow morphism (!reverse)
  | op => op

@[simp] theorem reversed_reversed (op : Op) : op.reversed.reversed = op := by
  cases op <;> simp [reversed]

@[simp] theorem isStep_reversed (op : Op) : op.reversed.isStep = op.isStep := by
  cases op <;> rfl

end Op

namespace Path

def root : Path → Root
  | .mk root _ => root

def ops : Path → List Op
  | .mk _ ops => ops

def vertex (seeds : List Value) : Path :=
  .mk (.values seeds) []

def all : Path :=
  .mk .all []

def morphism : Path :=
  .mk .morphism []

/-- One more operation. -/
def push (p : Path) (op : Op) : Path :=
  .mk p.root (p.ops ++ [op])

/-- The number of stages; the start is one. -/
def size (p : Path) : Nat :=
  1 + p.ops.length

/-- The stages of a path by name. -/
def outline (p : Path) : String :=
  let start := match p.root with
    | .values seeds => "vertex(" ++ toString seeds.length ++ ")"
    | .all => "all"
    | .morphism => "morphism"
  "[" ++ ", ".intercalate (start :: p.ops.map Op.name) ++ "]"

end Path

/-! ## How deeply paths are nested -/

mutual

def Via.depth : Via → Nat
  | .all | .values _ => 0
  | .path p => p.depth

def Op.depth : Op → Nat
  | .outgoing via _ | .incoming via _ | .both via _ => via.depth
  | .has via _ _ | .labelContext via _ => via.depth
  | .and p | .or p | .except p | .follow p _ | .followRecursive p _ _ => p.depth
  | _ => 0

def Path.depth : Path → Nat
  | .mk _ ops => 1 + Path.depthOfOps ops

def Path.depthOfOps : List Op → Nat
  | [] => 0
  | op :: ops => max op.depth (Path.depthOfOps ops)

end

namespace Path

theorem depth_le_of_mem {op : Op} : ∀ {ops : List Op}, op ∈ ops → op.depth ≤ depthOfOps ops
  | x :: ops, h => by
      rcases List.mem_cons.1 h with rfl | h
      · exact Nat.le_max_left _ _
      · exact Nat.le_trans (depth_le_of_mem h) (Nat.le_max_right _ _)

theorem depthOfOps_le {n : Nat} : ∀ {ops : List Op}, (∀ op ∈ ops, op.depth ≤ n) →
    depthOfOps ops ≤ n
  | [], _ => Nat.zero_le _
  | op :: _, h => Nat.max_le.2
      ⟨h op (List.mem_cons_self ..), depthOfOps_le fun o ho => h o (List.mem_cons_of_mem _ ho)⟩

end Path

end GraphQuery
