import GraphQuery.Provided.Json.Reader
import GraphQuery.Unicode.Property

/-!
# The text of a regular expression

How the text of an expression is read character by character: blanks and comments that are passed
over in the spaced mode, numbers, and the escapes that stand for one character.
-/

namespace GraphQuery.Pattern

/-- Passes over blanks and comments, if the mode is on. -/
def skipSpace (spaced : Bool) : List Char → List Char :=
  if spaced then go false else id
where
  go : Bool → List Char → List Char
    | _, [] => []
    | true, c :: cs => go (c ≠ '\n') cs
    | false, c :: cs =>
        if Unicode.isWhiteSpace c then go false cs
        else if c = '#' then go true cs
        else c :: cs

theorem length_go_le : ∀ (comment : Bool) (cs : List Char),
    (skipSpace.go comment cs).length ≤ cs.length
  | _, [] => by simp [skipSpace.go]
  | true, c :: cs => Nat.le_succ_of_le (length_go_le _ cs)
  | false, c :: cs => by
      unfold skipSpace.go
      split
      · exact Nat.le_succ_of_le (length_go_le _ cs)
      · split
        · exact Nat.le_succ_of_le (length_go_le _ cs)
        · exact Nat.le_refl _

theorem length_skipSpace_le (spaced : Bool) (cs : List Char) :
    (skipSpace spaced cs).length ≤ cs.length := by
  unfold skipSpace
  split
  · exact length_go_le _ cs
  · exact Nat.le_refl _

/-- The longest front of characters that satisfy `p`, where space may follow each. -/
def spanSpaced (spaced : Bool) (p : Char → Bool) : List Char → List Char × List Char
  | [] => ([], [])
  | c :: cs =>
      if p c then
        let (front, rest) := spanSpaced spaced p (skipSpace spaced cs)
        (c :: front, rest)
      else ([], c :: cs)
termination_by cs => cs.length
decreasing_by
  exact Nat.lt_succ_of_le (length_skipSpace_le spaced cs)

/-- The next character other than space, seen past the present one. A comment is not looked into. -/
def peekSpaced (spaced : Bool) (cs : List Char) : Option Char :=
  if spaced then
    match cs.dropWhile Unicode.isWhiteSpace with
    | '#' :: rest => (rest.dropWhile Unicode.isWhiteSpace).head?
    | rest => rest.head?
  else cs.head?

def isDigit (c : Char) : Bool :=
  '0' ≤ c && c ≤ '9'

/-- A number of thirty-two bits, with blanks around it in any mode. -/
def decimal? (spaced : Bool) (cs : List Char) : Option (Nat × List Char) :=
  let (digits, rest) := spanSpaced spaced isDigit (cs.dropWhile Unicode.isWhiteSpace)
  let n := digits.foldl (fun n c => 10 * n + (c.toNat - '0'.toNat)) 0
  if digits.isEmpty || UInt32.size ≤ n then none
  else some (n, (spanSpaced spaced Unicode.isWhiteSpace rest).2)

/-- The character with this number in hexadecimal. -/
def charOfHex? (digits : List Char) : Option Char := do
  let ds ← digits.mapM Json.hexDigit?
  let n := ds.foldl (16 * · + ·) 0
  if digits.isEmpty then none else if h : n.isValidChar then some (Char.ofNatAux n h) else none

/-- As many hexadecimal digits as asked for, where space may follow each. -/
def hexDigits? (spaced : Bool) : Nat → List Char → Option (List Char × List Char)
  | 0, cs => some ([], cs)
  | n + 1, c :: cs =>
      if (Json.hexDigit? c).isSome then do
        let (ds, rest) ← hexDigits? spaced n (skipSpace spaced cs)
        some (c :: ds, rest)
      else none
  | _ + 1, [] => none

/-- The character that a hexadecimal escape stands for, after the letter that says how many digits
it has; in braces it may have any number. The flag says whether it has exactly two digits. -/
def hexEscape? (spaced : Bool) (width : Nat) (cs : List Char) :
    Option ((Char × Bool) × List Char) :=
  match skipSpace spaced cs with
  | '{' :: cs => do
      let (ds, rest) := spanSpaced spaced (· ≠ '}') (skipSpace spaced cs)
      match rest with
      | '}' :: rest => some ((← charOfHex? ds, false), skipSpace spaced rest)
      | _ => none
  | cs => do
      let (ds, rest) ← hexDigits? spaced width cs
      some ((← charOfHex? ds, width = 2), rest)

/-- Characters that mean something outside an escape. -/
def isMeta (c : Char) : Bool :=
  "\\.+*?()|[]\x7b\x7d^$#&-~".contains c

/-- Characters that stand for themselves behind a backslash. -/
def isEscapable (c : Char) : Bool :=
  isMeta c || (c.toNat < 128 && !c.isAlphanum && c ≠ '<' && c ≠ '>')

/-- The controls that a letter behind a backslash stands for. -/
def controlEscape? (c : Char) : Option Char :=
  match c with
  | 'a' => some '\x07'
  | 'f' => some '\x0c'
  | 't' => some '\t'
  | 'n' => some '\n'
  | 'r' => some '\r'
  | 'v' => some '\x0b'
  | _ => none

end GraphQuery.Pattern
