import GraphQuery.Proofs.Optimize.Tidy

/-!
# Passes that nothing interrupts

Under a token that never trips a pass is a function of the plan alone: the rule of each operator,
applied to what the pass makes of its operands.
-/

namespace GraphQuery.Plan

variable {store : QuadStore}

/-! ## The token is left as it is -/

theorem cost_never (p : Plan) : p.cost store .never = (.ok (p.estimate store), .never) := by
  rw [cost, Token.checks_never]

theorem pickSmallest_never (ps : List Plan) (i best : Nat) (size : Int64) :
    (pickSmallest store i ps best size .never).2 = .never := by
  induction ps generalizing i best size with
  | nil => rfl
  | cons p ps ih =>
      simp only [pickSmallest, bind, StateT.bind, cost_never]
      split
      · exact ih _ _ _
      · exact ih _ _ _

theorem pickDriver_never (ps : List Plan) (driver : Nat) :
    (pickDriver store ps driver .never).2 = .never := by
  unfold pickDriver
  cases ps[driver]? with
  | none => rfl
  | some p =>
      simp only [bind, StateT.bind, cost_never]
      exact pickSmallest_never _ _ _ _

theorem simplifyAnd_never (ordered : Bool) (driver : Nat) (xs : List Simplified) :
    (simplifyAnd store ordered driver xs .never).2 = .never := by
  unfold simplifyAnd
  dsimp only
  split
  · rfl
  · generalize simplifyIntersection ordered _ = y
    obtain ⟨operands, best, changed⟩ := y
    match operands, ordered with
    | [_], _ | [], true | [], false | _ :: _ :: _, true => rfl
    | _ :: _ :: _, false => exact pickDriver_never _ best

mutual

theorem optimize_never (store : QuadStore) : ∀ (p : Plan) (ordered : Bool),
    (optimize store ordered p .never).2 = .never
  | .fixed _, _ | .null, _ | .all, _ | .input, _ => rfl
  | .and operands primary, ordered => by
      show (simplifyAnd store ordered _ _
        (optimizeOperands store ordered (driver operands primary) 0 operands .never).2).2 = .never
      rw [optimizeOperands_never store ordered _ operands]
      exact simplifyAnd_never ..
  | .or operands, ordered => optimizeAll_never store operands ordered
  | .not forbidden whole, ordered => by
      show (optimize store ordered whole (optimize store false forbidden .never).2).2 = .never
      rw [optimize_never store forbidden]
      exact optimize_never store whole ordered
  | .unique p, _ | .limit p _, _ | .skip p _, _ | .recursive p _ _ _ _, _ =>
      optimize_never store p true
  | .save p _, ordered | .sort p, ordered | .filter p _, ordered | .map p _, ordered
  | .constraint p _, ordered => optimize_never store p ordered
  | .step source _ _ via _ labels, ordered => by
      show (optimizeOption store labels
        (optimizeOption store via (optimize store ordered source .never).2).2).2 = .never
      rw [optimize_never store source, optimizeOption_never store via]
      exact optimizeOption_never store labels

theorem optimizeOperands_never (store : QuadStore) (ordered : Bool) (driver : Nat) :
    ∀ (ps : List Plan) {i : Nat}, (optimizeOperands store ordered driver i ps .never).2 = .never
  | [], _ => rfl
  | p :: ps, i => by
      show (optimizeOperands store ordered driver (i + 1) ps
        (optimize store (ordered && i == driver) p .never).2).2 = .never
      rw [optimize_never store p]
      exact optimizeOperands_never store ordered driver ps

theorem optimizeAll_never (store : QuadStore) : ∀ (ps : List Plan) (ordered : Bool),
    (optimizeAll store ordered ps .never).2 = .never
  | [], _ => rfl
  | p :: ps, ordered => by
      show (optimizeAll store ordered ps (optimize store ordered p .never).2).2 = .never
      rw [optimize_never store p]
      exact optimizeAll_never store ps ordered

theorem optimizeOption_never (store : QuadStore) : ∀ p : Option Plan,
    (optimizeOption store p .never).2 = .never
  | none => rfl
  | some p => optimize_never store p false

end

/-! ## A pass as a function of the plan -/

def pass (store : QuadStore) (ordered : Bool) (p : Plan) : Simplified :=
  (optimize store ordered p .never).1

def passOperands (store : QuadStore) (ordered : Bool) (driver : Nat) :
    Nat → List Plan → List Simplified
  | _, [] => []
  | i, p :: ps =>
      pass store (ordered && i == driver) p :: passOperands store ordered driver (i + 1) ps

@[simp]
theorem length_passOperands (store : QuadStore) (ordered : Bool) (driver i : Nat)
    (ps : List Plan) : (passOperands store ordered driver i ps).length = ps.length := by
  induction ps generalizing i with
  | nil => rfl
  | cons p ps ih => exact congrArg (· + 1) (ih (i + 1))

def joinPassed (store : QuadStore) (ordered : Bool) (driver : Nat) (xs : List Simplified) :
    Simplified :=
  (simplifyAnd store ordered driver xs .never).1

theorem optimize_eq_pass (store : QuadStore) (ordered : Bool) (p : Plan) :
    optimize store ordered p .never = (pass store ordered p, .never) :=
  Prod.ext rfl (optimize_never store p ordered)

theorem optimizeOperands_eq (store : QuadStore) (ordered : Bool) (driver : Nat) (ps : List Plan)
    (i : Nat) : optimizeOperands store ordered driver i ps .never =
      (passOperands store ordered driver i ps, .never) := by
  induction ps generalizing i with
  | nil => rfl
  | cons p ps ih =>
      simp only [optimizeOperands, passOperands, bind, StateT.bind, optimize_eq_pass, ih]
      rfl

theorem optimizeAll_eq (store : QuadStore) (ordered : Bool) (ps : List Plan) :
    optimizeAll store ordered ps .never = (ps.map (pass store ordered), .never) := by
  induction ps with
  | nil => rfl
  | cons p ps ih =>
      simp only [optimizeAll, bind, StateT.bind, optimize_eq_pass, ih]
      rfl

theorem optimizeOption_eq (store : QuadStore) (p : Option Plan) :
    optimizeOption store p .never = (p.map (pass store false), .never) := by
  cases p with
  | none => rfl
  | some p => exact congrArg (Prod.map some id) (optimize_eq_pass store false p)

section

variable (store) (ordered : Bool)

theorem pass_and (ps : List Plan) (primary : Nat) :
    pass store ordered (.and ps primary) = joinPassed store ordered (driver ps primary)
      (passOperands store ordered (driver ps primary) 0 ps) := by
  show (simplifyAnd store ordered _ (optimizeOperands store ordered _ 0 ps .never).1
    (optimizeOperands store ordered _ 0 ps .never).2).1 = _
  rw [optimizeOperands_eq]
  rfl

theorem pass_or (ps : List Plan) :
    pass store ordered (.or ps) = simplifyOr (ps.map (pass store ordered)) := by
  show simplifyOr (optimizeAll store ordered ps .never).1 = _
  rw [optimizeAll_eq]

theorem pass_not (forbidden whole : Plan) :
    pass store ordered (.not forbidden whole) =
      simplifyNot (pass store false forbidden) (pass store ordered whole) := by
  show simplifyNot (optimize store false forbidden .never).1
    (optimize store ordered whole (optimize store false forbidden .never).2).1 = _
  rw [optimize_never]
  rfl

theorem pass_step (source : Plan) (fromEnd toEnd : Direction) (via : Option Plan)
    (names : List String) (labels : Option Plan) :
    pass store ordered (.step source fromEnd toEnd via names labels) =
      simplifyStep fromEnd toEnd names (pass store ordered source) (via.map (pass store false))
        (labels.map (pass store false)) := by
  show simplifyStep fromEnd toEnd names (optimize store ordered source .never).1
    (optimizeOption store via (optimize store ordered source .never).2).1
    (optimizeOption store labels (optimizeOption store via
      (optimize store ordered source .never).2).2).1 = _
  rw [optimize_never, optimizeOption_eq, optimizeOption_eq]
  rfl

end

/-! ## Pass after pass -/

theorem passesLeft_never (passes left : Nat) (p : Plan) :
    (passesLeft store passes left p .never).2 = .never := by
  induction left generalizing p with
  | zero => rfl
  | succ left ih =>
      rw [passesLeft_succ, Token.check_never]
      dsimp only
      rw [optimize_never]
      split
      · exact ih _
      · rfl

end GraphQuery.Plan
