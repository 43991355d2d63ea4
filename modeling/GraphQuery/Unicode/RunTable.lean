/-!
# Run tables

A total function on code points, written as consecutive runs. Each run is a code, a capital
letter followed by small letters, and the number of its code points, left out when it is one.
Blanks between runs have no meaning, so that a long table can be broken into lines.
-/

namespace GraphQuery.Unicode

/-- The first code point of each run, ascending from zero, and the code of the run. -/
structure RunTable where
  runs : Array (Nat × String)

namespace RunTable

/-- The runs read so far and the run being read. -/
structure Reading where
  runs : Array (Nat × String) := #[]
  start : Nat := 0
  code : List Char := []
  count : Nat := 0

/-- Closes the run being read. -/
def Reading.flush (r : Reading) : Reading :=
  if r.code.isEmpty then r
  else
    { runs := r.runs.push (r.start, String.ofList r.code.reverse)
      start := r.start + max r.count 1 }

def Reading.add (r : Reading) (c : Char) : Reading :=
  if c.isWhitespace then r
  else if c.isDigit then { r with count := 10 * r.count + (c.toNat - '0'.toNat) }
  else if c.isUpper then { r.flush with code := [c] }
  else { r with code := c :: r.code }

def decode (text : String) : RunTable :=
  ⟨(text.foldl Reading.add {}).flush.runs⟩

/-- Binary search in `runs[low]`, ..., `runs[high - 1]`, halving the span at each of `fuel` steps.
-/
def search (runs : Array (Nat × String)) (n : Nat) : Nat → Nat → Nat → Nat
  | 0, low, _ => low
  | fuel + 1, low, high =>
      if high ≤ low + 1 then low
      else
        let middle := (low + high) / 2
        match runs[middle]? with
        | some (start, _) =>
            if start ≤ n then search runs n fuel middle high else search runs n fuel low middle
        | none => low

/-- The code of the run that holds `c`. -/
def codeAt (t : RunTable) (c : Char) : String :=
  match t.runs[search t.runs c.toNat (t.runs.size.log2 + 2) 0 t.runs.size]? with
  | some (_, code) => code
  | none => ""

/-- The number of stretches of code points whose code satisfies `p`. -/
def spans (t : RunTable) (p : String → Bool) : Nat :=
  (t.runs.foldl
    (fun (n, inside) (_, code) => (if p code && !inside then n + 1 else n, p code)) (0, false)).1

end RunTable

end GraphQuery.Unicode
