import GraphQuery.Pattern.Library

/-!
# Wildcards

A pattern that has to fit the whole of a text: `%` stands for any run of characters, `?` for exactly
one, and every other character for itself. It is translated character by character to a regular
expression.
-/

namespace GraphQuery

namespace Wildcard

/-- Spells what a character of a pattern stands for. -/
def spell (L : RegexLibrary) (c : Char) : String :=
  if c = '%' then ".*" else if c = '?' then "." else L.escape (String.singleton c)

/-- The expression of a pattern, anchored at both ends; newlines are characters like others. -/
def expression (L : RegexLibrary) (pattern : String) : String :=
  "(?s)^" ++ String.join (pattern.toList.map (spell L)) ++ "$"

end Wildcard

/-- A wildcard pattern as it is written, and the texts that its expression is found in. -/
structure Wildcard where
  text : String
  isMatch : String → Bool

end GraphQuery
