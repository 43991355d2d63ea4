import GraphQuery.Number.Shortest

/-!
# JSON documents

Documents for a program that has no library for them. No theorem rests on this.

A document is a tree. Strings and numbers that stand for nothing (an unpaired surrogate, a number
past the largest double) are kept as gaps: a member that is skipped may hold one, a member that
is used may not.
-/

namespace GraphQuery

/-- The number that a literal stands for. Whole numbers of up to 64 bits stay whole. -/
inductive JsonNumber where
  | natural (n : UInt64)
  /-- The whole number `-n`, for `n` from one to `2 ^ 63`. -/
  | negative (n : UInt64)
  | double (x : Binary64)
deriving DecidableEq, Repr

/-- A JSON value. -/
inductive Json where
  | null
  | bool (b : Bool)
  | number (n : Option JsonNumber)
  | string (s : Option String)
  | array (items : List Json)
  | object (members : List (Option String × Json))

namespace Json

/-- Brackets open at once, at the deepest place. -/
def depth : Json → Nat
  | .array items => deepest items + 1
  | .object members => deepestMember members + 1
  | _ => 0
where
  deepest : List Json → Nat
    | [] => 0
    | j :: js => max (depth j) (deepest js)
  deepestMember : List (Option String × Json) → Nat
    | [] => 0
    | (_, j) :: js => max (depth j) (deepestMember js)

/-- Whether every string and number stands for something, keys included. -/
def complete : Json → Bool
  | .number n => n.isSome
  | .string s => s.isSome
  | .array items => completeAll items
  | .object members => completeMembers members
  | _ => true
where
  completeAll : List Json → Bool
    | [] => true
    | j :: js => complete j && completeAll js
  completeMembers : List (Option String × Json) → Bool
    | [] => true
    | (key, j) :: js => key.isSome && complete j && completeMembers js

/-- The members named by keys, in order, unless some key is no text. -/
def members? : List (Option String × Json) → Option (List (String × Json))
  | [] => some []
  | (none, _) :: _ => none
  | (some key, j) :: rest => (members? rest).map ((key, j) :: ·)

/-- The members with one of these keys, in order. -/
def select (keys : List String) (members : List (String × Json)) : List (String × Json) :=
  members.filter fun (key, _) => keys.contains key

def text? : Json → Option String
  | .string s => s
  | _ => none

def bool? : Json → Option Bool
  | .bool b => some b
  | _ => none

/-- A whole number of 64 bits, without sign. -/
def natural? : Json → Option UInt64
  | .number (some (.natural n)) => some n
  | _ => none

/-- A whole number of 64 bits, with sign. -/
def integer? : Json → Option Int64
  | .number (some (.natural n)) =>
      if n < 0x8000000000000000 then some (Int64.ofNat n.toNat) else none
  | .number (some (.negative n)) => some (Int64.ofInt (-n.toNat))
  | _ => none

/-- Any number, whole ones rounded. -/
def double? : Json → Option Binary64
  | .number (some (.natural n)) => some (.ofNat n.toNat)
  | .number (some (.negative n)) => some (.ofInt (-n.toNat))
  | .number (some (.double x)) => some x
  | _ => none

/-- One of several names, as a string or as an object with that one key and no value. -/
def name? : Json → Option String
  | .string s => s
  | .object [(key, .null)] => key
  | _ => none

end Json

end GraphQuery
