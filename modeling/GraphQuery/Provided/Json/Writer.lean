import GraphQuery.Provided.Json

/-!
# Writing JSON documents

Documents are written without blanks. In strings only quotes, backslashes and controls are
escaped.
-/

namespace GraphQuery.Json

/-- One character of a string. -/
def writeChar (c : Char) : List Char :=
  if c = '"' then ['\\', '"']
  else if c = '\\' then ['\\', '\\']
  else if c = '\x08' then ['\\', 'b']
  else if c = '\x0c' then ['\\', 'f']
  else if c = '\n' then ['\\', 'n']
  else if c = '\r' then ['\\', 'r']
  else if c = '\t' then ['\\', 't']
  else if c.toNat < 0x20 then
    '\\' :: 'u' :: '0' :: '0' ::
      Nat.digitChar (c.toNat / 16) :: Nat.digitChar (c.toNat % 16) :: []
  else [c]

def writeString (s : String) : List Char :=
  '"' :: s.toList.flatMap writeChar ++ ['"']

/-- Doubles take the fewest digits; extreme ones are written with an exponent. -/
def doubleStyle : DecimalStyle :=
  { tie := .toEven
    wholeSuffix := ".0"
    positional := some (-5, 15)
    nan := "null"
    infinity := "null" }

def writeNumber : JsonNumber → List Char
  | .natural n => Nat.toDigits 10 n.toNat
  | .negative n => '-' :: Nat.toDigits 10 n.toNat
  | .double x => if x.isFinite then (doubleStyle.render x).toList else "null".toList

/-- Gaps are written as `null`. -/
def write : Json → List Char
  | .null => "null".toList
  | .bool b => if b then "true".toList else "false".toList
  | .number n => (n.map writeNumber).getD "null".toList
  | .string s => (s.map writeString).getD "null".toList
  | .array items => '[' :: writeItems items ++ [']']
  | .object members => '\x7b' :: writeMembers members ++ ['\x7d']
where
  writeItems : List Json → List Char
    | [] => []
    | [j] => write j
    | j :: js => write j ++ ',' :: writeItems js
  writeMembers : List (Option String × Json) → List Char
    | [] => []
    | [(key, j)] => writeString (key.getD "") ++ ':' :: write j
    | (key, j) :: js => writeString (key.getD "") ++ ':' :: write j ++ ',' :: writeMembers js

def render (j : Json) : String :=
  String.ofList j.write

end GraphQuery.Json
