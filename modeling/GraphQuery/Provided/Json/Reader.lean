import GraphQuery.Provided.Json.Number

/-!
# Reading JSON documents

`Json.parse?` accepts a document with blanks around it and nothing else. The recursion is on a
count that exceeds the steps any document of the same length can ask for.
-/

namespace GraphQuery.Json

/-- A reader takes characters off the front and leaves the rest. -/
abbrev Reader (α : Type) := List Char → Option (α × List Char)

def isBlank (c : Char) : Bool :=
  c = ' ' || c = '\n' || c = '\t' || c = '\r'

def skipBlanks (cs : List Char) : List Char :=
  cs.dropWhile isBlank

/-- The value of a hexadecimal digit. -/
def hexDigit? (c : Char) : Option Nat :=
  if '0' ≤ c && c ≤ '9' then some (c.toNat - '0'.toNat)
  else if 'a' ≤ c && c ≤ 'f' then some (c.toNat - 'a'.toNat + 10)
  else if 'A' ≤ c && c ≤ 'F' then some (c.toNat - 'A'.toNat + 10)
  else none

/-- Four hexadecimal digits. -/
def hex4? : Reader Nat
  | a :: b :: c :: d :: rest => do
      let a ← hexDigit? a
      let b ← hexDigit? b
      let c ← hexDigit? c
      let d ← hexDigit? d
      some (((a * 16 + b) * 16 + c) * 16 + d, rest)
  | _ => none

/-- The character after a backslash that needs no number. -/
def escaped? (c : Char) : Option Char :=
  match c with
  | '"' => some '"'
  | '\\' => some '\\'
  | '/' => some '/'
  | 'b' => some '\x08'
  | 'f' => some '\x0c'
  | 'n' => some '\n'
  | 'r' => some '\r'
  | 't' => some '\t'
  | _ => none

/-- The text being read: characters in reverse, none once a surrogate stands alone, and the high
surrogate that waits for its low one. -/
structure TextSoFar where
  chars : Option (List Char) := some []
  high : Option Nat := none

def TextSoFar.push (t : TextSoFar) (c : Char) : TextSoFar :=
  { chars := if t.high.isSome then none else t.chars.map (c :: ·), high := none }

/-- Adds a sixteen-bit unit, pairing surrogates. -/
def TextSoFar.pushUnit (t : TextSoFar) (n : Nat) : TextSoFar :=
  if 0xDC00 ≤ n && n < 0xE000 then
    match t.high with
    | some h =>
        let c := Char.ofNat (0x10000 + (h - 0xD800) * 0x400 + (n - 0xDC00))
        { chars := t.chars.map (c :: ·) }
    | none => { chars := none }
  else if 0xD800 ≤ n && n < 0xDC00 then
    { chars := if t.high.isSome then none else t.chars, high := some n }
  else t.push (Char.ofNat n)

def TextSoFar.finish (t : TextSoFar) : Option String :=
  if t.high.isSome then none else t.chars.map fun cs => String.ofList cs.reverse

/-- The rest of a string after its opening quote. -/
def stringBody? : Nat → TextSoFar → Reader (Option String)
  | 0, _, _ => none
  | _, _, [] => none
  | fuel + 1, t, c :: rest =>
      if c = '"' then some (t.finish, rest)
      else if c = '\\' then
        match rest with
        | 'u' :: rest => do
            let (n, rest) ← hex4? rest
            stringBody? fuel (t.pushUnit n) rest
        | e :: rest => do
            let c ← escaped? e
            stringBody? fuel (t.push c) rest
        | [] => none
      else if c.toNat < 0x20 then none
      else stringBody? fuel (t.push c) rest

/-- A string with its quotes. -/
def string? : Reader (Option String)
  | '"' :: rest => stringBody? (rest.length + 1) {} rest
  | _ => none

/-- Leading decimal digits, perhaps none. -/
def digits (cs : List Char) : List Nat × List Char :=
  ((cs.takeWhile Char.isDigit).map fun c => c.toNat - '0'.toNat, cs.dropWhile Char.isDigit)

/-- One digit or more. -/
def digits? : Reader (List Nat) := fun cs =>
  let (ds, rest) := digits cs
  if ds.isEmpty then none else some (ds, rest)

/-- Whether a minus comes first, and what follows it. -/
def sign : List Char → Bool × List Char
  | '-' :: rest => (true, rest)
  | cs => (false, cs)

/-- A point with digits after it, or nothing. -/
def fraction? : Reader (Option (List Nat))
  | '.' :: rest => (digits? rest).map fun (ds, rest) => (some ds, rest)
  | cs => some (none, cs)

/-- An exponent with its sign, or nothing. -/
def exponent? : Reader (Option (Bool × List Nat))
  | 'e' :: rest | 'E' :: rest =>
      let (down, rest) := match rest with
        | '-' :: rest => (true, rest)
        | '+' :: rest => (false, rest)
        | _ => (false, rest)
      (digits? rest).map fun (ds, rest) => (some (down, ds), rest)
  | cs => some (none, cs)

/-- A number; no zero leads another digit. -/
def number? : Reader NumberLiteral := fun cs => do
  let (negative, cs) := sign cs
  let (whole, cs) ← digits? cs
  if whole.head? = some 0 && 1 < whole.length then none
  else
    let (fraction, cs) ← fraction? cs
    let (exponent, cs) ← exponent? cs
    some (⟨negative, whole, fraction, exponent⟩, cs)

mutual

/-- A value after blanks. -/
def value? : Nat → Reader Json
  | 0, _ => none
  | fuel + 1, cs =>
      match skipBlanks cs with
      | 'n' :: 'u' :: 'l' :: 'l' :: rest => some (.null, rest)
      | 't' :: 'r' :: 'u' :: 'e' :: rest => some (.bool true, rest)
      | 'f' :: 'a' :: 'l' :: 's' :: 'e' :: rest => some (.bool false, rest)
      | '[' :: rest =>
          match skipBlanks rest with
          | ']' :: rest => some (.array [], rest)
          | rest => (items? fuel rest).map fun (js, rest) => (.array js, rest)
      | '\x7b' :: rest =>
          match skipBlanks rest with
          | '\x7d' :: rest => some (.object [], rest)
          | rest => (entries? fuel rest).map fun (ms, rest) => (.object ms, rest)
      | '"' :: rest => (string? ('"' :: rest)).map fun (s, rest) => (.string s, rest)
      | rest => (number? rest).map fun (n, rest) => (.number n.value?, rest)

/-- One item or more, then the closing bracket. -/
def items? : Nat → Reader (List Json)
  | 0, _ => none
  | fuel + 1, cs => do
      let (j, rest) ← value? fuel cs
      match skipBlanks rest with
      | ',' :: rest => (items? fuel rest).map fun (js, rest) => (j :: js, rest)
      | ']' :: rest => some ([j], rest)
      | _ => none

/-- One member or more, then the closing brace. -/
def entries? : Nat → Reader (List (Option String × Json))
  | 0, _ => none
  | fuel + 1, cs => do
      let (key, rest) ← string? (skipBlanks cs)
      match skipBlanks rest with
      | ':' :: rest =>
          let (j, rest) ← value? fuel rest
          match skipBlanks rest with
          | ',' :: rest => (entries? fuel rest).map fun (ms, rest) => ((key, j) :: ms, rest)
          | '\x7d' :: rest => some ([(key, j)], rest)
          | _ => none
      | _ => none

end

/-- The document that a text is. -/
def parse? (text : String) : Option Json :=
  let cs := text.toList
  match value? (2 * cs.length + 2) cs with
  | some (j, rest) => if (skipBlanks rest).isEmpty then some j else none
  | none => none

end GraphQuery.Json
