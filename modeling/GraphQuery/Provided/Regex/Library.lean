import GraphQuery.Pattern.Library
import GraphQuery.Provided.Regex.Parser

/-!
# The library that queries are run with
-/

namespace GraphQuery.Regex

/-- Spells a character that stands for itself. -/
def escape (c : Char) : List Char :=
  if Pattern.isMeta c then ['\\', c] else [c]

def library : RegexLibrary where
  compile? text := (parse? text).map isMatch
  escape s := String.ofList (s.toList.flatMap escape)

end GraphQuery.Regex
