import GraphQuery.Provided.Regex.CharClass

/-!
# Regular expressions

Expressions for a program that has no library for them. All that is proved of them is that they do
what is documented of a library.

A regular expression is matched by moving a set of positions through the text: from the positions
where a match may start to those where it may end. So the work is bounded by the size of the
expression and the square of the length of the text, whatever is repeated.
-/

namespace GraphQuery

/-- A condition on a position between characters. -/
inductive Anchor where
  | textStart
  | textEnd
  | lineStart
  | lineEnd
  /-- The start of a line, where a return ends a line too. -/
  | lineStartCrlf
  | lineEndCrlf
  /-- Between a character of this class and one outside. -/
  | boundary (word : CharClass)
  | noBoundary (word : CharClass)
  | wordStart (word : CharClass)
  | wordEnd (word : CharClass)
  /-- Not after a character of this class. -/
  | wordStartHalf (word : CharClass)
  | wordEndHalf (word : CharClass)
deriving DecidableEq, Repr

/-- Whether the condition holds between these two neighbours; at either end one is missing. -/
def Anchor.holds (before after : Option Char) : Anchor → Bool
  | .textStart => before.isNone
  | .textEnd => after.isNone
  | .lineStart => before.isNone || before = some '\n'
  | .lineEnd => after.isNone || after = some '\n'
  | .lineStartCrlf =>
      before.isNone || before = some '\n' || (before = some '\r' && after ≠ some '\n')
  | .lineEndCrlf =>
      after.isNone || after = some '\r' || (after = some '\n' && before ≠ some '\r')
  | .boundary word => before.any word.mem ≠ after.any word.mem
  | .noBoundary word => before.any word.mem = after.any word.mem
  | .wordStart word => !before.any word.mem && after.any word.mem
  | .wordEnd word => before.any word.mem && !after.any word.mem
  | .wordStartHalf word => !before.any word.mem
  | .wordEndHalf word => !after.any word.mem

inductive Regex where
  | empty
  /-- One character of the class. -/
  | chars (s : CharClass)
  | anchor (a : Anchor)
  | seq (r q : Regex)
  | alt (r q : Regex)
  /-- At least `min` times, and at most `max` times if there is a bound. -/
  | times (r : Regex) (min : Nat) (max : Option Nat)
deriving DecidableEq, Repr

namespace Regex

/-- Positions of either list, each once if it is once in each. -/
def merge (xs ys : List Nat) : List Nat :=
  xs ++ ys.filter (!xs.contains ·)

/-- Applies `f` exactly `n` times. -/
def iterate (f : List Nat → List Nat) : Nat → List Nat → List Nat
  | 0, xs => xs
  | n + 1, xs => if xs.isEmpty then [] else iterate f n (f xs)

/-- Applies `f` at most `n` times and collects what is reached; it stops when nothing new is. -/
def collect (f : List Nat → List Nat) : Nat → List Nat → List Nat
  | 0, xs => xs
  | n + 1, xs =>
      let ys := merge xs (f xs)
      if ys.length = xs.length then xs else collect f n ys

/-- The character before a position. -/
def before? (text : Array Char) (i : Nat) : Option Char :=
  if i = 0 then none else text[i - 1]?

/-- The positions where a match of `r` ends that starts at one of the given positions. In more
rounds than there are positions a match comes back to where it was, so no repetition needs more. -/
def ends (text : Array Char) : Regex → List Nat → List Nat
  | .empty, starts => starts
  | .chars s, starts => (starts.filter fun i => text[i]?.any s.mem).map (· + 1)
  | .anchor a, starts => starts.filter fun i => a.holds (before? text i) text[i]?
  | .seq r q, starts => q.ends text (r.ends text starts)
  | .alt r q, starts => merge (r.ends text starts) (q.ends text starts)
  | .times r min max, starts =>
      let rounds := text.size + 1
      let more := match max with
        | none => rounds
        | some max => Nat.min rounds (max - min)
      collect (r.ends text) more (iterate (r.ends text) (Nat.min rounds min) starts)

/-- Whether some part of the text matches. -/
def isMatch (r : Regex) (text : String) : Bool :=
  let cs := text.toList.toArray
  !(r.ends cs (List.range (cs.size + 1))).isEmpty

/-- The weight of the classes that the expression holds when every counted repetition is written in
full. -/
def unfoldedSize : Regex → Nat
  | .empty | .anchor _ => 0
  | .chars s => s.weight
  | .seq r q | .alt r q => r.unfoldedSize + q.unfoldedSize
  | .times _ _ (some 0) => 0
  | .times r min max => r.unfoldedSize * Nat.max 1 (max.getD min)

end Regex

end GraphQuery
