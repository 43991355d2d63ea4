import GraphQuery.Plan

/-!
# Estimates

What a plan is likely to cost and how many results it is likely to have. Estimates steer the choice
of a driver and never change a result. They are signed numbers of sixty-four bits: sums, differences
and products wrap around. A node with several operands consults the token before it is estimated.
-/

namespace GraphQuery

/-- A number of results; `exact` if it is meant to be the true number. -/
structure Size where
  value : Int64
  exact : Bool
deriving DecidableEq, Repr

/-- What a probe and a pull cost, relative to each other, and how many results there are. -/
structure Costs where
  contains : Int64
  next : Int64
  size : Size
deriving DecidableEq, Repr

namespace Costs

def zero : Costs :=
  ⟨0, 0, ⟨0, false⟩⟩

/-- The costs of a set held in the open. -/
def ofCount (n : Nat) : Costs :=
  ⟨1, 1, ⟨.ofNat n, true⟩⟩

def total (ns : List Int64) : Int64 :=
  ns.foldl (· + ·) 0

/-- Sums are over all operands; pulls go to the driver and probes to the others. -/
def join (operands : List Costs) (driver : Nat) : Costs :=
  match operands[driver]? with
  | none => zero
  | some d =>
      let contains := total (operands.map Costs.contains)
      let sizes := operands.map fun c => c.size.value
      { contains
        next := d.next + (contains - d.contains)
        size := ⟨sizes.foldl min d.size.value, operands.length == 1 && d.size.exact⟩ }

def union (operands : List Costs) : Costs :=
  { contains := total (operands.map Costs.contains)
    next := (operands.map Costs.next).foldl max 0
    size := ⟨total (operands.map fun c => c.size.value), operands.all (·.size.exact)⟩ }

def without (whole forbidden : Costs) : Costs :=
  { contains := whole.contains + forbidden.contains
    next := whole.next + forbidden.contains
    size := ⟨max (whole.size.value - forbidden.size.value) 0, false⟩ }

/-- A count above the greatest signed number turns negative. -/
def limit (c : Costs) (n : Nat) : Costs :=
  if n = 0 then c else { c with size := { c.size with value := min c.size.value (.ofNat n) } }

def skip (c : Costs) (n : Nat) : Costs :=
  { c with size := { c.size with value := max (c.size.value - .ofNat n) 0 } }

def sort (c : Costs) : Costs :=
  { c with next := c.next + (.ofNat (max c.size.value 1).toInt.toNat.log2 + 1) }

def step (c : Costs) (fanout : Nat) : Costs :=
  { contains := max (.ofNat fanout) 1 * (c.contains + 1)
    next := c.next + .ofNat fanout
    size := ⟨c.size.value * .ofNat fanout, false⟩ }

/-- A test is taken to pass half of the results. -/
def halved (s : Size) : Size :=
  ⟨s.value / 2 + 1, false⟩

def test (c : Costs) : Costs :=
  ⟨c.contains + 1, c.next + 1, halved c.size⟩

def map (c : Costs) : Costs :=
  ⟨c.next * max c.size.value 1, c.next + 1, halved c.size⟩

/-- Only this product stops at the greatest and at the least number there is. -/
def closure (c : Costs) (nodes : Nat) : Costs :=
  let most : Int64 := max (.ofNat nodes) 1
  { contains := c.next * most
    next := c.next * 2
    size := ⟨min (.ofNat nodes) (.ofIntClamp (c.size.value.toInt * most.toInt)), false⟩ }

end Costs

namespace Plan

mutual

/-- The estimate, made from those of the operands. The restrictions of a step do not count. -/
def estimate (store : QuadStore) : Plan → Costs
  | .fixed handles => .ofCount handles.size
  | .null | .input => .zero
  | .all => .ofCount store.stats.nodes
  | .and operands primary => .join (estimateAll store operands) (driver operands primary)
  | .or operands => .union (estimateAll store operands)
  | .not forbidden whole => (estimate store whole).without (estimate store forbidden)
  | .unique p =>
      let c := estimate store p
      { c with size := { c.size with exact := false } }
  | .save p _ => estimate store p
  | .limit p n => (estimate store p).limit n
  | .skip p n => (estimate store p).skip n
  | .sort p => (estimate store p).sort
  | .step source _ _ _ _ _ => (estimate store source).step store.fanout
  | .filter p _ | .constraint p _ => (estimate store p).test
  | .map p _ => (estimate store p).map
  | .recursive p _ _ _ _ => (estimate store p).closure store.stats.nodes

def estimateAll (store : QuadStore) : List Plan → List Costs
  | [] => []
  | p :: ps => estimate store p :: estimateAll store ps

end

mutual

/-- How often the token is consulted for an estimate. -/
def estimateChecks : Plan → Nat
  | .fixed _ | .null | .all | .input => 0
  | .and operands _ | .or operands => 1 + estimateChecksAll operands
  | .not forbidden whole => estimateChecks whole + estimateChecks forbidden
  | .unique p | .save p _ | .limit p _ | .skip p _ | .sort p | .filter p _ | .map p _
  | .constraint p _ | .recursive p _ _ _ _ | .step p _ _ _ _ _ => estimateChecks p

def estimateChecksAll : List Plan → Nat
  | [] => 0
  | p :: ps => estimateChecks p + estimateChecksAll ps

end

/-- The estimate, unless the token trips. -/
def cost (store : QuadStore) (p : Plan) : StateM Token (Except QueryError Costs) := fun t =>
  match t.checks p.estimateChecks with
  | (some e, t) => (.error e, t)
  | (none, t) => (.ok (p.estimate store), t)

/-! ## Descriptions -/

/-- A plan as it is shown to a reader: names and sizes. -/
inductive Description where
  | node (name : String) (size : Size) (children : List Description)

mutual

/-- Describes a plan and its operands. A size that the token keeps from being estimated is shown as
zero. -/
def describe (store : QuadStore) (p : Plan) : StateM Token Description := do
  let size := match ← p.cost store with
    | .ok c => c.size
    | .error _ => ⟨0, false⟩
  let children ← match p with
    | .and ps _ | .or ps => describeAll store ps
    | .not forbidden whole => do
        let forbidden ← describe store forbidden
        let whole ← describe store whole
        pure [forbidden, whole]
    | .unique p | .save p _ | .limit p _ | .skip p _ | .sort p | .filter p _ | .map p _
    | .constraint p _ | .recursive p _ _ _ _ => do
        let sub ← describe store p
        pure [sub]
    | .step source _ _ via _ labels => do
        let source ← describe store source
        let via ← describeOption store via
        let labels ← describeOption store labels
        pure (source :: (via ++ labels))
    | _ => pure []
  pure (.node p.name size children)

def describeAll (store : QuadStore) : List Plan → StateM Token (List Description)
  | [] => pure []
  | p :: ps => do
      let d ← describe store p
      let ds ← describeAll store ps
      pure (d :: ds)

def describeOption (store : QuadStore) : Option Plan → StateM Token (List Description)
  | none => pure []
  | some p => do
      let d ← describe store p
      pure [d]

end

end Plan

end GraphQuery
