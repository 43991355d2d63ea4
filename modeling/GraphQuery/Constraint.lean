import GraphQuery.Pattern.Wildcard
import GraphQuery.Value.Printer
import GraphQuery.Error

/-!
# Constraints on values

Conditions that are plain data: a comparison with a value, a pattern on the text, a choice of kinds.
-/

namespace GraphQuery

inductive Comparison where
  | lt
  | lte
  | gt
  | gte
  | eq
  | ne
deriving DecidableEq, Repr

namespace Comparison

/-- Whether an outcome of comparing is asked for. -/
def accepts : Comparison → Ordering → Bool
  | .lt, o => o = .lt
  | .lte, o => o ≠ .gt
  | .gt, o => o = .gt
  | .gte, o => o ≠ .lt
  | .eq, o => o = .eq
  | .ne, o => o ≠ .eq

def symbol : Comparison → String
  | .lt => "<"
  | .lte => "<="
  | .gt => ">"
  | .gte => ">="
  | .eq => "="
  | .ne => "!="

end Comparison

/-- A regular expression as it is written, and the texts that it is found in. -/
structure TextPattern where
  source : String
  isMatch : String → Bool

inductive Constraint where
  /-- Compares with a value of the same family; no other value passes. -/
  | compare (op : Comparison) (value : Value)
  /-- A part of the text matches; references have a text only if `refs` is set. -/
  | regex (pattern : TextPattern) (refs : Bool)
  /-- The whole of the text fits a wildcard pattern. -/
  | like (pattern : Wildcard)
  | kinds (ks : List Kind)

namespace Constraint

/-- The constraint of a regular expression, if the library takes the text for one. -/
def regex? (L : RegexLibrary) (source : String) (refs : Bool) : Except QueryError Constraint :=
  match L.compile? source with
  | some isMatch => .ok (.regex ⟨source, isMatch⟩ refs)
  | none => .error (.invalidPattern source)

/-- The constraint of a wildcard pattern, if the library takes its expression. -/
def like? (L : RegexLibrary) (pattern : String) : Except QueryError Constraint :=
  match L.compile? (Wildcard.expression L pattern) with
  | some isMatch => .ok (.like ⟨pattern, isMatch⟩)
  | none => .error (.invalidPattern pattern)

/-- Every kind of literal. -/
def literal : Constraint :=
  .kinds Kind.literals

/-- Whether a value passes. -/
def holds : Constraint → Value → Bool
  | .compare op w, v => (v.compare? w).any op.accepts
  | .regex pattern refs, v => (refs || !v.isReference) && v.text?.any pattern.isMatch
  | .like pattern, v => v.text?.any pattern.isMatch
  | .kinds ks, v => ks.contains v.kind

/-- The constraint as it is shown, given how instants are written. -/
def render (timeText : Instant → String) : Constraint → String
  | .compare op v => op.symbol ++ " " ++ v.render timeText
  | .regex pattern false => "regex /" ++ pattern.source ++ "/"
  | .regex pattern true => "regex /" ++ pattern.source ++ "/ (refs)"
  | .like pattern => "like " ++ Quoted.quote pattern.text
  | .kinds ks => "kind in [" ++ ", ".intercalate (ks.map Kind.name) ++ "]"

end Constraint

end GraphQuery
