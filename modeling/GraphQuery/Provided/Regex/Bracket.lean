import GraphQuery.Provided.Regex.Mode
import GraphQuery.Provided.Regex.Text

/-!
# Escapes and bracketed classes

What follows a backslash, and the classes in brackets with their ranges, nested classes and set
operations. Set operations associate to the left and bind less tightly than juxtaposition.
-/

namespace GraphQuery.Pattern

/-- What an escape stands for. -/
inductive Escape where
  | char (c : Char)
  | chars (s : CharClass)
  | anchor (a : Anchor)

/-- The name after a backslashed `p`: one letter, or any text in braces. -/
def propertyName? (spaced : Bool) (cs : List Char) : Option (List Char × List Char) :=
  match skipSpace spaced cs with
  | [] => none
  | '{' :: cs =>
      match spanSpaced spaced (· ≠ '}') (skipSpace spaced cs) with
      | (name, '}' :: rest) => some (name, rest)
      | _ => none
  | c :: cs => if c = '\\' then none else some ([c], skipSpace spaced cs)

/-- The anchor named in braces after a backslashed `b`. If what is in braces does not begin like a
name, the braces are not read. -/
def namedBoundary? (m : Mode) (cs : List Char) : Option (Anchor × List Char) :=
  let isNameChar (c : Char) := c.isAlpha || c = '-'
  match cs with
  | '{' :: inner =>
      match skipSpace m.spaced inner with
      | [] => none
      | c :: rest =>
          if isNameChar c then
            let (name, rest) := spanSpaced m.spaced isNameChar (c :: rest)
            match rest with
            | '}' :: rest =>
                match String.ofList name with
                | "start" => some (.wordStart m.word, rest)
                | "end" => some (.wordEnd m.word, rest)
                | "start-half" => some (.wordStartHalf m.word, rest)
                | "end-half" => some (.wordEndHalf m.word, rest)
                | _ => none
            | _ => none
          else some (.boundary m.word, cs)
  | _ => some (.boundary m.word, cs)

/-- Reads what follows a backslash. -/
def escape? (m : Mode) : List Char → Option (Escape × List Char)
  | [] => none
  | c :: cs =>
      if isDigit c then none
      else if c = 'x' || c = 'u' || c = 'U' then do
        let width := if c = 'x' then 2 else if c = 'u' then 4 else 8
        let ((x, isByte), rest) ← hexEscape? m.spaced width cs
        some (.char (← m.literal? x isByte), rest)
      else if c = 'p' || c = 'P' then do
        let (name, rest) ← propertyName? m.spaced cs
        some (.chars (← m.propertyClass? (c = 'P') name), rest)
      else if "dswDSW".contains c then do
        some (.chars (← m.letterClass? c), cs)
      else if isEscapable c then some (.char c, cs)
      else
        match controlEscape? c with
        | some x => some (.char x, cs)
        | none =>
            match c with
            | 'A' => some (.anchor .textStart, cs)
            | 'z' => some (.anchor .textEnd, cs)
            | 'b' => (namedBoundary? m cs).map fun (a, rest) => (.anchor a, rest)
            | 'B' => some (.anchor (.noBoundary m.word), cs)
            | '<' => some (.anchor (.wordStart m.word), cs)
            | '>' => some (.anchor (.wordEnd m.word), cs)
            | _ => none

/-! ## Bracketed classes -/

/-- A class and how deeply it is nested. -/
structure Nested where
  chars : CharClass
  depth : Nat

/-- The union of classes written one after the other. -/
def Nested.union (items : List Nested) : Nested :=
  match items with
  | [] => ⟨.none, 0⟩
  | [s] => s
  | items => ⟨.unions (items.map Nested.chars), 1 + (items.map Nested.depth).foldl max 0⟩

inductive SetOperation where
  | inter
  | diff
  | symmDiff

def SetOperation.apply : SetOperation → CharClass → CharClass → CharClass
  | .inter => .inter
  | .diff => .diff
  | .symmDiff => .symmDiff

/-- What is still open in a bracketed class: a class within brackets, with the items before it, or a
set operation with its left operand. -/
inductive OpenClass where
  | bracket (before : List Nested) (negated : Bool)
  | operation (op : SetOperation) (left : Nested)

/-- Applies the set operation that is open, if one is. -/
def applyOpen (m : Mode) (stack : List OpenClass) (right : Nested) : Nested × List OpenClass :=
  match stack with
  | .operation op left :: stack =>
      (⟨op.apply (m.operand left.chars) (m.operand right.chars), 1 + max left.depth right.depth⟩,
        stack)
  | stack => (right, stack)

/-- What an opening bracket starts: whether the class is negated, and the hyphens or the closing
bracket that stand for themselves at its front. -/
def openBracket? (m : Mode) (cs : List Char) : Option (Bool × List Nested × List Char) := do
  let (negated, cs) :=
    match skipSpace m.spaced cs with
    | '^' :: cs => (true, skipSpace m.spaced cs)
    | cs => (false, cs)
  let (hyphens, cs) := spanSpaced m.spaced (· = '-') cs
  let hyphen : Nested := ⟨.single '-', 0⟩
  match hyphens, cs with
  | _, [] => none
  | [], ']' :: cs =>
      match skipSpace m.spaced cs with
      | [] => none
      | cs => some (negated, [⟨.single ']', 0⟩], cs)
  | hyphens, cs => some (negated, hyphens.map fun _ => hyphen, cs)

/-- A named ASCII class after its opening bracket; `none` if it is something else. -/
def asciiClass? : List Char → Option ((CharClass × Bool) × List Char)
  | ':' :: cs =>
      let (negated, cs) := match cs with
        | '^' :: cs => (true, cs)
        | cs => (false, cs)
      match cs.dropWhile (· ≠ ':') with
      | ':' :: ']' :: rest =>
          (asciiClasses.lookup (String.ofList (cs.takeWhile (· ≠ ':')))).map
            fun s => ((s, negated), rest)
      | _ => none
  | _ => none

/-- One member of a class. -/
def classItem? (m : Mode) : List Char → Option (Escape × List Char)
  | [] => none
  | '\\' :: cs => escape? m cs
  | c :: cs => some (.char c, cs)

/-- Without Unicode a character has to be a byte. -/
def Mode.allows (m : Mode) (c : Char) : Bool :=
  m.unicode || c.toNat < 256

/-- A member of a class, or a range between two. -/
def classRange? (m : Mode) (cs : List Char) : Option (CharClass × List Char) := do
  let (first, cs) ← classItem? m cs
  let cs := skipSpace m.spaced cs
  let alone : Option (CharClass × List Char) :=
    match first with
    | .char c => if m.allows c then some (.single c, cs) else none
    | .chars s => some (s, cs)
    | .anchor _ => none
  match cs with
  | [] => none
  | '-' :: rest =>
      let next := peekSpaced m.spaced rest
      if next = some ']' || next = some '-' then alone
      else do
        let (last, rest) ← classItem? m (skipSpace m.spaced rest)
        match first, last with
        | .char a, .char b =>
            if m.allows a && m.allows b && a ≤ b then some (.range a b, rest) else none
        | _, _ => none
  | _ => alone

/-- Reads a bracketed class up to the bracket that closes its outermost bracket. Every round takes a
character, so a count of the characters is enough rounds. -/
def bracketRest? (m : Mode) : Nat → List OpenClass → List Nested → List Char →
    Option (Nested × List Char)
  | 0, _, _, _ => none
  | rounds + 1, stack, items, cs =>
      let operate (op : SetOperation) (rest : List Char) : Option (Nested × List Char) :=
        let (left, stack) := applyOpen m stack (Nested.union items.reverse)
        bracketRest? m rounds (.operation op left :: stack) [] rest
      match skipSpace m.spaced cs with
      | [] => none
      | '[' :: rest =>
          match asciiClass? rest with
          | some ((s, negated), rest) => do
              let s ← m.settle? negated s
              bracketRest? m rounds stack (⟨s, 0⟩ :: items) rest
          | none => do
              let (negated, front, rest) ← openBracket? m rest
              bracketRest? m rounds (.bracket items negated :: stack) front.reverse rest
      | ']' :: rest =>
          let (whole, stack) := applyOpen m stack (Nested.union items.reverse)
          match stack with
          | .bracket before negated :: stack => do
              let closed : Nested := ⟨← m.settle? negated whole.chars, 1 + whole.depth⟩
              if stack.isEmpty then some (closed, rest)
              else bracketRest? m rounds stack (closed :: before) rest
          | _ => none
      | '&' :: '&' :: rest => operate .inter rest
      | '-' :: '-' :: rest => operate .diff rest
      | '~' :: '~' :: rest => operate .symmDiff rest
      | cs => do
          let (s, rest) ← classRange? m cs
          bracketRest? m rounds stack (⟨s, 0⟩ :: items) rest

/-- Reads a bracketed class after its opening bracket. -/
def bracket? (m : Mode) (cs : List Char) : Option (Nested × List Char) := do
  let (negated, front, rest) ← openBracket? m cs
  bracketRest? m (cs.length + 1) [.bracket [] negated] front.reverse rest

end GraphQuery.Pattern
