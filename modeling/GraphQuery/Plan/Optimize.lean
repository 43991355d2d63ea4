import GraphQuery.Plan.Cost

/-!
# Simplifying plans

One pass simplifies a plan from its leaves up: it drops operands without effect, merges stacked
operators of one kind, tests literal sets at once and lets the smallest operand of an intersection
drive. `ordered` tells a pass that the order of the results matters to what is above; then nothing
is done that could change it. Passes are repeated until one changes nothing.
-/

namespace GraphQuery.Plan

/-- A plan after a pass, and whether the pass has changed it. -/
abbrev Simplified : Type :=
  Plan × Bool

/-! ## Rules for single operators -/

/-- Tags merged under one operator: those of the inner one first, then the new ones of the outer. -/
def mergeNames (inner outer : List String) : List String :=
  outer.foldl (fun names name => if names.contains name then names else names ++ [name]) inner

def simplifyNot : Simplified → Simplified → Simplified
  | (forbidden, changed), (whole, changed') =>
      if forbidden.isNull || whole.isNull then (whole, true)
      else (.not forbidden whole, changed || changed')

def simplifyUnique : Simplified → Simplified
  | (.null, _) => (.null, true)
  | (.unique p, _) => (.unique p, true)
  | (p, changed) => (.unique p, changed)

def simplifySave (names : List String) : Simplified → Simplified
  | (p, changed) =>
      if names.isEmpty || p.isNull then (p, true)
      else
        match p with
        | .save q inner => (.save q (mergeNames inner names), true)
        | p => (.save p names, changed)

def simplifyLimit (n : Nat) : Simplified → Simplified
  | (p, changed) =>
      if n = 0 || p.isNull then (p, true)
      else
        match p with
        | .limit q m => (.limit q (if m = 0 then n else min m n), true)
        | p => (.limit p n, changed)

/-- Stacked counts are added up. They are numbers of sixty-four bits, so the sum wraps around. -/
def simplifySkip (n : Nat) : Simplified → Simplified
  | (p, changed) =>
      if n = 0 || p.isNull then (p, true)
      else
        match p with
        | .skip q m => (.skip q ((m + n) % UInt64.size), true)
        | p => (.skip p n, changed)

def simplifySort : Simplified → Simplified
  | (.null, _) => (.null, true)
  | (.sort p, _) => (.sort p, true)
  | (p, changed) => (.sort p, changed)

def simplifyStep (fromEnd toEnd : Direction) (names : List String) (source : Simplified)
    (via labels : Option Simplified) : Simplified :=
  if source.1.isNull || via.any (·.1.isNull) || labels.any (·.1.isNull) then (.null, true)
  else
    (.step source.1 fromEnd toEnd (via.map Prod.fst) names (labels.map Prod.fst),
      source.2 || via.any Prod.snd || labels.any Prod.snd)

/-- Whether a handle resolves to a value that passes all the constraints. -/
def passes (store : QuadStore) (constraints : List Constraint) (h : Handle) : Bool :=
  (store.resolve h).any fun v => constraints.all (·.holds v)

/-- Stacked constraints become one list. A literal set is tested at once, unless it holds a handle
that does not resolve, for that is a failure when it is scanned. -/
def simplifyConstraint (store : QuadStore) (constraints : List Constraint) : Simplified → Simplified
  | (.constraint p inner, _) => (.constraint p (inner ++ constraints), true)
  | (.fixed handles, changed) =>
      if handles.toList.all fun h => (store.resolve h).isSome then
        (.fixed (handles.filter (passes store constraints)), true)
      else (.constraint (.fixed handles) constraints, changed)
  | (p, changed) => (.constraint p constraints, changed)

def simplifyRecursive (morphism : Plan) (maxDepth : Nat) (depthNames : List String)
    (bindings : ClosureBindings) : Simplified → Simplified
  | (.null, _) => (.null, true)
  | (p, changed) => (.recursive p morphism maxDepth depthNames bindings, changed)

/-! ## Unions -/

/-- The branches with nested unions opened and empty ones dropped. -/
def flattenUnion : List Simplified → List Plan × Bool
  | [] => ([], false)
  | (p, changed) :: rest =>
      let (ps, changed') := flattenUnion rest
      match p with
      | .null => (ps, true)
      | .or qs => (qs ++ ps, true)
      | p => (p :: ps, changed || changed')

def simplifyOr (branches : List Simplified) : Simplified :=
  match flattenUnion branches with
  | ([], _) => (.null, true)
  | ([p], _) => (p, true)
  | (ps, changed) => (.or ps, changed)

/-! ## Intersections -/

/-- Operands, the position of the one that drives, and whether anything has changed. -/
structure Intersection where
  operands : List Plan
  driver : Nat
  changed : Bool

/-- Opens nested intersections. The driver of a nested driver becomes the driver. -/
def flattenIntersection (driver : Nat) : Nat → List Simplified → Intersection → Intersection
  | _, [], acc => acc
  | i, (p, changed) :: rest, acc =>
      let offset := acc.operands.length
      match p with
      | .and qs k =>
          flattenIntersection driver (i + 1) rest
            { operands := acc.operands ++ qs
              driver := if i = driver then offset + Plan.driver qs k else acc.driver
              changed := true }
      | p =>
          flattenIntersection driver (i + 1) rest
            { operands := acc.operands ++ [p]
              driver := if i = driver then offset else acc.driver
              changed := acc.changed || changed }

/-- The operands but those that are all nodes, and the place where the driver comes to be. The
driver stays if the order of the results matters. -/
def dropAll (ordered : Bool) (driver : Nat) : Nat → List Plan → Intersection → Intersection
  | _, [], acc => acc
  | i, p :: rest, acc =>
      if p.isAll && !(ordered && i = driver) then
        dropAll ordered driver (i + 1) rest { acc with changed := true }
      else
        dropAll ordered driver (i + 1) rest
          { acc with
            operands := acc.operands ++ [p]
            driver := if i = driver then acc.operands.length else acc.driver }

/-- Intersecting with all nodes has no effect; if there is nothing else, one of them is left. -/
def simplifyIntersection (ordered : Bool) (x : Intersection) : Intersection :=
  if x.operands.length ≤ 1 then x
  else
    let kept := dropAll ordered x.driver 0 x.operands ⟨[], 0, x.changed⟩
    let operands := if kept.operands.isEmpty then [.all] else kept.operands
    { kept with operands, driver := min kept.driver (operands.length - 1) }

/-- The position of the operand with the fewest results among those that are estimated, looking from
`best` on. -/
def pickSmallest (store : QuadStore) : Nat → List Plan → Nat → Int64 → StateM Token Nat
  | _, [], best, _ => pure best
  | i, p :: rest, best, size => do
      match ← p.cost store with
      | .ok c =>
          if c.size.value < size then pickSmallest store (i + 1) rest i c.size.value
          else pickSmallest store (i + 1) rest best size
      | .error _ => pickSmallest store (i + 1) rest best size

/-- The operand to drive: the smallest, and of several the present one or else the first. -/
def pickDriver (store : QuadStore) (operands : List Plan) (driver : Nat) : StateM Token Nat := do
  match operands[driver]? with
  | none => pure driver
  | some p =>
      match ← p.cost store with
      | .error _ => pure driver
      | .ok c => pickSmallest store 0 operands driver c.size.value

def simplifyAnd (store : QuadStore) (ordered : Bool) (driver : Nat) (operands : List Simplified) :
    StateM Token Simplified := do
  let x := flattenIntersection driver 0 operands ⟨[], 0, false⟩
  if x.operands.isEmpty || x.operands.any isNull then pure (.null, true)
  else
    let x := simplifyIntersection ordered x
    match x.operands with
    | [p] => pure (p, true)
    | operands =>
        let best ← if ordered then pure x.driver else pickDriver store operands x.driver
        pure (.and operands best, x.changed || best ≠ x.driver || best ≠ driver)

/-! ## Passes -/

mutual

/-- One pass. -/
def optimize (store : QuadStore) (ordered : Bool) : Plan → StateM Token Simplified
  | .fixed handles => pure (if handles.isEmpty then (.null, true) else (.fixed handles, false))
  | .null => pure (.null, false)
  | .all => pure (.all, false)
  | .input => pure (.input, false)
  | .and operands primary => do
      let driver := Plan.driver operands primary
      let operands ← optimizeOperands store ordered driver 0 operands
      simplifyAnd store ordered driver operands
  | .or operands => do
      let operands ← optimizeAll store ordered operands
      pure (simplifyOr operands)
  | .not forbidden whole => do
      let forbidden ← optimize store false forbidden
      let whole ← optimize store ordered whole
      pure (simplifyNot forbidden whole)
  | .unique p => simplifyUnique <$> optimize store true p
  | .save p names => simplifySave names <$> optimize store ordered p
  | .limit p n => simplifyLimit n <$> optimize store true p
  | .skip p n => simplifySkip n <$> optimize store true p
  | .sort p => simplifySort <$> optimize store ordered p
  | .step source fromEnd toEnd via names labels => do
      let source ← optimize store ordered source
      let via ← optimizeOption store via
      let labels ← optimizeOption store labels
      pure (simplifyStep fromEnd toEnd names source via labels)
  | .filter p test => (fun (p, changed) => (.filter p test, changed)) <$> optimize store ordered p
  | .map p f => (fun (p, changed) => (.map p f, changed)) <$> optimize store ordered p
  | .constraint p cs => simplifyConstraint store cs <$> optimize store ordered p
  | .recursive p morphism maxDepth depthNames bindings =>
      simplifyRecursive morphism maxDepth depthNames bindings <$> optimize store true p

/-- The operands of an intersection: only the order of the driver can matter. -/
def optimizeOperands (store : QuadStore) (ordered : Bool) (driver : Nat) :
    Nat → List Plan → StateM Token (List Simplified)
  | _, [] => pure []
  | i, p :: ps => do
      let p ← optimize store (ordered && i == driver) p
      let ps ← optimizeOperands store ordered driver (i + 1) ps
      pure (p :: ps)

def optimizeAll (store : QuadStore) (ordered : Bool) : List Plan → StateM Token (List Simplified)
  | [] => pure []
  | p :: ps => do
      let p ← optimize store ordered p
      let ps ← optimizeAll store ordered ps
      pure (p :: ps)

def optimizeOption (store : QuadStore) : Option Plan → StateM Token (Option Simplified)
  | none => pure none
  | some p => some <$> optimize store false p

end

/-- Passes until one changes nothing, at most `left` of them; the token is consulted before each. -/
def passesLeft (store : QuadStore) (passes : Nat) : Nat → Plan →
    StateM Token (Except QueryError Plan)
  | 0, _ => pure (.error (.optimizerDiverged passes))
  | left + 1, p => do
      match ← (fun t => t.check : StateM Token (Option QueryError)) with
      | some e => pure (.error e)
      | none =>
          let (p, changed) ← optimize store false p
          if changed then passesLeft store passes left p else pure (.ok p)

/-- The plan that further passes leave unchanged, if `passes` of them are enough; at least one is
made. -/
def normalize (store : QuadStore) (passes : Nat) (p : Plan) :
    StateM Token (Except QueryError Plan) :=
  passesLeft store (max passes 1) (max passes 1) p

end GraphQuery.Plan
