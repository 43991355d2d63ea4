import GraphQuery.Cursor.Closure

/-!
# Configuration

How queries are compiled, simplified and delivered.
-/

namespace GraphQuery

structure Config where
  /-- Whether plans are simplified before they run. -/
  optimize : Bool := true
  /-- The most passes of simplification. -/
  maxPasses : Nat := 16
  bindings : ClosureBindings := .first
  /-- The limit for queries that ask for none. -/
  defaultLimit : Option Nat := none
  /-- Whether each binding set of a result is a row of its own. -/
  includePaths : Bool := true
deriving DecidableEq, Repr

namespace Config

/-- What is wrong with a configuration, if anything is. -/
def fault? (c : Config) : Option String :=
  if c.maxPasses = 0 then some "max_optimize_passes must be at least 1" else none

/-- The configuration that a text stands for, or what is wrong with it, given how texts are read. -/
def parse (read? : String → Option Config) (text : String) : Except String Config :=
  match read? text with
  | none => .error "failed to parse engine configuration"
  | some c =>
      match c.fault? with
      | some reason => .error reason
      | none => .ok c

end Config

end GraphQuery
