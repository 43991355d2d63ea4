import GraphQuery.Value
import GraphQuery.Number.Shortest
import GraphQuery.Text.Quoted

/-!
# Values as text

References stand between their marks as they are, texts are quoted, and a language or datatype
follows the text it belongs to. How instants are written is left to the caller.
-/

namespace GraphQuery.Value

/-- Doubles are written out in full, never with an exponent. -/
def doubleStyle : DecimalStyle :=
  { tie := .up
    wholeSuffix := ""
    positional := none
    nan := "NaN"
    infinity := "inf" }

def render (timeText : Instant → String) : Value → String
  | .iri s => "<" ++ s ++ ">"
  | .blank s => "_:" ++ s
  | .str s => Quoted.quote s
  | .lang s language => Quoted.quote s ++ "@" ++ language
  | .typed s datatype => Quoted.quote s ++ "^^<" ++ datatype ++ ">"
  | .int n => toString n.toInt
  | .float x => doubleStyle.render x
  | .bool b => if b then "true" else "false"
  | .time t => timeText t

end GraphQuery.Value
