import GraphQuery.Handle
import GraphQuery.Text.Quoted

/-!
# What can go wrong with a query

That nothing is found is no error. The two interruptions are errors like the others, and told apart
from them by `isCancellation`.
-/

namespace GraphQuery

inductive QueryError where
  | cancelled
  | deadlineExceeded
  /-- A filter or a map of the caller's failed with this text. -/
  | callback (reason : String)
  /-- A plan produced a handle that the store does not resolve. -/
  | unknownHandle (handle : Handle)
  /-- A cursor was advanced after it was closed. -/
  | closed
  | invalidPattern (pattern : String)
  /-- Plans were still changing after this many passes. -/
  | optimizerDiverged (passes : Nat)
  | invalidConfig (reason : String)
deriving DecidableEq, Repr

namespace QueryError

def message : QueryError → String
  | .cancelled => "query cancelled"
  | .deadlineExceeded => "query deadline exceeded"
  | .callback reason => "callback failed: " ++ reason
  | .unknownHandle h => "handle " ++ h.render ++ " was not issued by the store"
  | .closed => "cursor used after close"
  | .invalidPattern pattern => "invalid pattern " ++ Quoted.quote pattern
  | .optimizerDiverged passes =>
      "optimizer did not reach a fixpoint after " ++ toString passes ++ " passes"
  | .invalidConfig reason => "invalid engine configuration: " ++ reason

/-- Whether the query was interrupted rather than failed. -/
def isCancellation : QueryError → Bool
  | .cancelled | .deadlineExceeded => true
  | _ => false

end QueryError

end GraphQuery
