import GraphQuery.Provided.Regex.Bracket

/-!
# Reading regular expressions

`Regex.parse?` gives the expression that a text spells. Groups are kept on a stack while they are
open, and the modes change from left to right until the group ends.
-/

namespace GraphQuery.Pattern

/-- An item of a concatenation and how deeply it is nested. A change of modes is an item that
nothing can repeat. -/
structure Item where
  regex : Regex
  depth : Nat
  isModeChange : Bool := false

/-- A concatenation being read, with the alternatives before it; both in reverse. -/
structure Branches where
  done : List Item := []
  items : List Item := []

/-- A group that is open: what surrounds it, and the modes to return to. -/
structure OpenGroup where
  outer : Branches
  mode : Mode

/-- Where reading has come to. -/
structure Place where
  groups : List OpenGroup := []
  here : Branches := {}
  mode : Mode := {}
  names : List String := []
  rest : List Char

namespace Branches

def push (b : Branches) (item : Item) : Branches :=
  { b with items := item :: b.items }

def maxDepth (items : List Item) : Nat :=
  (items.map Item.depth).foldl max 0

/-- The concatenation read so far. -/
def concat (b : Branches) : Item :=
  match b.items.reverse with
  | [] => ⟨.empty, 0, false⟩
  | [item] => item
  | items => ⟨items.foldr (fun i r => .seq i.regex r) .empty, 1 + maxDepth items, false⟩

/-- Ends an alternative. -/
def bar (b : Branches) : Branches :=
  ⟨b.concat :: b.done, []⟩

/-- All alternatives together. -/
def close (b : Branches) : Item :=
  match b.done with
  | [] => b.concat
  | done =>
      let items := done.reverse ++ [b.concat]
      let regex := match items.map Item.regex with
        | [] => Regex.empty
        | r :: rs => rs.foldl .alt r
      ⟨regex, 1 + maxDepth items, false⟩

/-- Repeats the last item. -/
def repeatLast? (b : Branches) (min : Nat) (max : Option Nat) : Option Branches :=
  match b.items with
  | item :: items =>
      if item.isModeChange then none
      else some { b with items := ⟨.times item.regex min max, 1 + item.depth, false⟩ :: items }
  | [] => none

end Branches

/-- Whether a character may be in the name of a group. -/
def isNameChar (isFirst : Bool) (c : Char) : Bool :=
  if isFirst then c = '_' || Unicode.isAlphabetic c
  else c = '_' || c = '.' || c = '[' || c = ']' || Unicode.isAlphanumeric c

/-- The name of a group, up to the angle that closes it. -/
def groupName? (cs : List Char) : Option (String × List Char) :=
  let name := cs.takeWhile (· ≠ '>')
  match name, cs.dropWhile (· ≠ '>') with
  | c :: more, '>' :: rest =>
      if isNameChar true c && more.all (isNameChar false) then
        some (String.ofList (c :: more), rest)
      else none
  | _, _ => none

/-- Passes over the mark of a lazy repetition. -/
def skipLazy : List Char → List Char
  | '?' :: cs => cs
  | cs => cs

/-- The bounds of a counted repetition after its opening brace. -/
def bounds? (spaced : Bool) (cs : List Char) : Option ((Nat × Option Nat) × List Char) := do
  let (min, cs) ← decimal? spaced (skipSpace spaced cs)
  let ((min, max), cs) ←
    match cs with
    | ',' :: cs =>
        match skipSpace spaced cs with
        | '}' :: cs => some ((min, none), '}' :: cs)
        | cs => (decimal? spaced cs).map fun (max, cs) => ((min, some max), cs)
    | cs => some ((min, some min), cs)
  match cs with
  | '}' :: cs =>
      if max.any (· < min) then none else some ((min, max), skipLazy (skipSpace spaced cs))
  | _ => none

namespace Place

def pushItem (p : Place) (item : Item) (rest : List Char) : Place :=
  { p with here := p.here.push item, rest }

def pushClass (p : Place) (s : CharClass) (depth : Nat) (rest : List Char) : Place :=
  p.pushItem ⟨.chars s, depth, false⟩ rest

/-- Opens a group. -/
def openGroup (p : Place) (mode : Mode) (rest : List Char) : Place :=
  { p with groups := ⟨p.here, p.mode⟩ :: p.groups, here := {}, mode, rest }

/-- What an opening parenthesis starts: a group, with or without a name or modes, or a change of
modes for the rest of the group around. -/
def parenthesis? (p : Place) (cs : List Char) : Option Place :=
  let named (cs : List Char) : Option Place := do
    let (name, rest) ← groupName? cs
    if p.names.contains name then none
    else some { p.openGroup p.mode rest with names := name :: p.names }
  match skipSpace p.mode.spaced cs with
  | '?' :: '=' :: _ | '?' :: '!' :: _ | '?' :: '<' :: '=' :: _ | '?' :: '<' :: '!' :: _ => none
  | '?' :: 'P' :: '<' :: rest => named rest
  | '?' :: '<' :: rest => named rest
  | '?' :: rest => do
      let (change, rest) ← ModeChange.read? false [] rest
      match rest with
      | ')' :: rest =>
          if change.letters.isEmpty then none
          else some { p.pushItem ⟨.empty, 0, true⟩ rest with mode := p.mode.change change }
      | ':' :: rest => some (p.openGroup (p.mode.change change) rest)
      | _ => none
  | rest => some (p.openGroup p.mode rest)

/-- Closes the innermost group. -/
def closeGroup? (p : Place) (rest : List Char) : Option Place :=
  match p.groups with
  | [] => none
  | g :: groups =>
      let inner := p.here.close
      some { p with
        groups, here := g.outer.push ⟨inner.regex, 1 + inner.depth, false⟩, mode := g.mode, rest }

/-- Reads what begins with a character. -/
def step? (p : Place) (c : Char) (cs : List Char) : Option Place :=
  let m := p.mode
  let repeated (bounds : Nat × Option Nat) (rest : List Char) : Option Place :=
    (p.here.repeatLast? bounds.1 bounds.2).map fun here => { p with here, rest }
  match c with
  | '(' => p.parenthesis? cs
  | ')' => p.closeGroup? cs
  | '|' => some { p with here := p.here.bar, rest := cs }
  | '[' => (bracket? m cs).map fun (s, rest) => p.pushClass s.chars s.depth rest
  | '?' => repeated (0, some 1) (skipLazy cs)
  | '*' => repeated (0, none) (skipLazy cs)
  | '+' => repeated (1, none) (skipLazy cs)
  | '{' => (bounds? m.spaced cs).bind fun (bounds, rest) => repeated bounds rest
  | '\\' =>
      (escape? m cs).map fun (e, rest) =>
        match e with
        | .char x => p.pushClass (m.literalClass x) 0 rest
        | .chars s => p.pushClass s 0 rest
        | .anchor a => p.pushItem ⟨.anchor a, 0, false⟩ rest
  | '.' => m.dot?.map fun s => p.pushClass s 0 cs
  | '^' => some (p.pushItem ⟨.anchor m.lineStart, 0, false⟩ cs)
  | '$' => some (p.pushItem ⟨.anchor m.lineEnd, 0, false⟩ cs)
  | c => some (p.pushClass (m.literalClass c) 0 cs)

/-- The whole expression, once nothing is left to read and no group is open. -/
def finish? (p : Place) : Option Item :=
  if p.groups.isEmpty then some p.here.close else none

/-- Reads to the end. Every round takes a character. -/
def run? : Nat → Place → Option Item
  | 0, _ => none
  | rounds + 1, p =>
      match skipSpace p.mode.spaced p.rest with
      | [] => p.finish?
      | c :: cs => (p.step? c cs).bind (run? rounds)

end Place

end GraphQuery.Pattern

namespace GraphQuery.Regex

/-- How deeply an expression may be nested. -/
def maxDepth : Nat := 250

/-- How much room the classes of an expression may take when its repetitions are written in full. -/
def maxUnfoldedSize : Nat := 320000

/-- The expression that a text spells, if it is one and not too large. -/
def parse? (text : String) : Option Regex := do
  let item ← Pattern.Place.run? (text.length + 1) { rest := text.toList }
  if item.depth ≤ maxDepth && item.regex.unfoldedSize ≤ maxUnfoldedSize then some item.regex
  else none

end GraphQuery.Regex
