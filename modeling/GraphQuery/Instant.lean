/-!
# Instants

An instant is a count of seconds and nanoseconds in universal time. A leap second is told apart
from the second before it by nanoseconds that run past a thousand million.
-/

namespace GraphQuery

/-- `seconds` from the start of 1970 and `nanos` into that second, a leap second included. -/
structure Instant where
  seconds : Int
  nanos : Nat
deriving DecidableEq, Hashable, Inhabited, Repr

/-- Earlier instants first; a leap second follows the second it extends. -/
def Instant.compare (a b : Instant) : Ordering :=
  (Ord.compare a.seconds b.seconds).then (Ord.compare a.nanos b.nanos)

end GraphQuery
