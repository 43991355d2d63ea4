import GraphQuery.Config
import GraphQuery.Cursor.Visit
import GraphQuery.Path.Compile
import GraphQuery.Plan.Optimize
import GraphQuery.Plan.Roles

/-!
# Sessions

Queries against one store under one configuration. A query compiles its path, simplifies the plan
and visits its results; the token passes from query to query.
-/

namespace GraphQuery

structure Session where
  store : QuadStore
  config : Config := {}

namespace Session

/-- A session with this configuration, unless something is wrong with it. -/
def withConfig (s : Session) (config : Config) : Except QueryError Session :=
  match config.fault? with
  | some reason => .error (.invalidConfig reason)
  | none => .ok { s with config }

/-- The plan of a path, simplified if the configuration asks for it. -/
def prepare (s : Session) (path : Path) : StateM Token (Except QueryError Plan) :=
  let plan := path.compile s.store s.config.bindings
  if s.config.optimize then plan.normalize s.store s.config.maxPasses else pure (.ok plan)

/-- The description of the prepared plan. -/
def explain (s : Session) (path : Path) : StateM Token (Except QueryError Plan.Description) := do
  match ← s.prepare path with
  | .error e => pure (.error e)
  | .ok plan => do
      let d ← plan.describe s.store
      pure (.ok d)

/-- The limit in force: the one asked for, or else the configured one. Zero stands for no limit. -/
def effectiveLimit (s : Session) (limit : Option Nat) : Option Nat :=
  (limit <|> s.config.defaultLimit).filter (0 < ·)

/-- Visits the rows of a path; the outcome is the number of rows delivered. -/
def run {σ : Type} (s : Session) (path : Path) (limit : Option Nat) (paths : Bool)
    (visit : ResultRow → σ → Token → Visited σ) (x : σ) (t : Token) : Visit σ :=
  match s.prepare path t with
  | (.error e, t) => ⟨.error e, x, t⟩
  | (.ok plan, t) => (plan.roles s.store).scanner.visit ⟨paths, s.effectiveLimit limit⟩ visit x t

/-- Visits the rows of a path; every binding set is a row if the configuration says so. -/
def forEach {σ : Type} (s : Session) (path : Path) (limit : Option Nat)
    (visit : ResultRow → σ → Token → Visited σ) (x : σ) (t : Token) : Visit σ :=
  s.run path limit s.config.includePaths visit x t

/-- A visitor who keeps the rows, the last one first. -/
def keepRow (row : ResultRow) (rows : List ResultRow) (t : Token) : Visited (List ResultRow) :=
  ⟨row :: rows, t, false⟩

/-- All rows of a visit, if it ends well. -/
def rowsOf (v : Visit (List ResultRow)) : Except QueryError (List ResultRow) × Token :=
  (v.outcome.map fun _ => v.state.reverse, v.token)

def collect (s : Session) (path : Path) (limit : Option Nat) :
    StateM Token (Except QueryError (List ResultRow)) := fun t =>
  rowsOf (s.forEach path limit keepRow [] t)

/-- The value of a handle. -/
def valueOf (s : Session) (h : Handle) : Except QueryError Value :=
  match s.store.resolve h with
  | some v => .ok v
  | none => .error (.unknownHandle h)

/-- The values of the results, one for each. -/
def values (s : Session) (path : Path) (limit : Option Nat) :
    StateM Token (Except QueryError (List Value)) := fun t =>
  let (rows, t) := rowsOf (s.run path limit false keepRow [] t)
  (rows.bind fun rows => rows.mapM fun row => s.valueOf row.id, t)

/-- The value of the first result. -/
def first (s : Session) (path : Path) : StateM Token (Except QueryError (Option Value)) := fun t =>
  let (values, t) := s.values path (some 1) t
  (values.map List.head?, t)

/-- The number of rows without a limit. -/
def count (s : Session) (path : Path) : StateM Token (Except QueryError Nat) := fun t =>
  let v := s.forEach path (some 0) (fun _ x t => ⟨x, t, false⟩) () t
  (v.outcome, v.token)

/-- The values of everything that a row binds, by name. -/
def resolve (s : Session) (row : ResultRow) : Except QueryError (List (String × Value)) :=
  row.tags.entries.mapM fun (name, h) => (s.valueOf h).map fun v => (name, v)

end Session

end GraphQuery
