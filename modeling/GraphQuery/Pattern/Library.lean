/-!
# Libraries of regular expressions

What is asked of a library of regular expressions, and what it documents of the expressions that
wildcards are translated to: of anchors, dots and runs of dots, and of text that is taken as it is,
in the mode in which a dot stands for a newline too.
-/

namespace GraphQuery

/-- A library of regular expressions. -/
structure RegexLibrary where
  /-- The texts that an expression is found in, if it is one. -/
  compile? : String → Option (String → Bool)
  /-- Spells a text that is taken as it is. -/
  escape : String → String

namespace RegexLibrary

/-- A part of an expression. -/
inductive Element where
  | textStart
  | textEnd
  | anyOne
  | anyRun
  | literal (s : String)

def Element.spell (L : RegexLibrary) : Element → String
  | .textStart => "^"
  | .textEnd => "$"
  | .anyOne => "."
  | .anyRun => ".*"
  | .literal s => L.escape s

/-- The element is found from the first of these positions to the second. -/
def Element.Spans (text : List Char) : Element → Nat → Nat → Prop
  | .textStart, i, j => j = i ∧ i = 0
  | .textEnd, i, j => j = i ∧ i = text.length
  | .anyOne, i, j => j = i + 1 ∧ i < text.length
  | .anyRun, i, j => i ≤ j ∧ j ≤ text.length
  | .literal s, i, j => j = i + s.toList.length ∧ s.toList <+: text.drop i

/-- Elements are found one after the other. -/
def SpansInTurn (text : List Char) : List Element → Nat → Nat → Prop
  | [], i, j => j = i
  | e :: es, i, j => ∃ k, e.Spans text i k ∧ SpansInTurn text es k j

/-- The library does what its documentation says. A compiled expression is found in a text if its
elements are found one after the other, wherever in the text. -/
def Documented (L : RegexLibrary) : Prop :=
  ∀ (es : List Element) (isMatch : String → Bool),
    L.compile? ("(?s)" ++ String.join (es.map (Element.spell L))) = some isMatch →
      ∀ text : String, isMatch text = true ↔
        ∃ i j, i ≤ text.toList.length ∧ SpansInTurn text.toList es i j

end RegexLibrary

end GraphQuery
