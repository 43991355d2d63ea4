import GraphQuery.Unicode.Binary
import GraphQuery.Unicode.Casing
import GraphQuery.Unicode.Category
import GraphQuery.Unicode.Property
import GraphQuery.Unicode.Script

/-!
# Character classes

Sets of characters, described rather than listed. `CharClass.mem` says what is in a class.
-/

namespace GraphQuery

/-- A property that a character has or lacks. -/
inductive CharProperty where
  /-- A general category or a group of them. -/
  | category (name : String)
  | script (code : String)
  | binary (name : String)
  | alphabetic
  | uppercase
  | lowercase
  | whiteSpace
  | graphemeExtend
  | graphemeBase
  | cased
  | word
deriving DecidableEq, Repr

def CharProperty.holds : CharProperty → Char → Bool
  | .category name, c => Unicode.inCategory name c
  | .script code, c => Unicode.script c = code
  | .binary name, c => Unicode.hasBinary name c
  | .alphabetic, c => Unicode.isAlphabetic c
  | .uppercase, c => Unicode.isUppercase c
  | .lowercase, c => Unicode.isLowercase c
  | .whiteSpace, c => Unicode.isWhiteSpace c
  | .graphemeExtend, c => Unicode.isGraphemeExtend c
  | .graphemeBase, c =>
      !(["Cc", "Cf", "Cs", "Co", "Cn", "Zl", "Zp"].contains (Unicode.category c)) &&
        !Unicode.isGraphemeExtend c
  | .cased, c => Unicode.isUppercase c || Unicode.isLowercase c || Unicode.inCategory "Lt" c
  | .word, c => Unicode.isWord c

/-- About how many ranges of characters the property takes. -/
def CharProperty.spans : CharProperty → Nat
  | .category name => Unicode.categoryTable.spans (Unicode.groupHolds name)
  | .script code => Unicode.scriptTable.spans (· = code)
  | .binary name => ((Unicode.binaryTables.lookup name).map (·.spans (· = "Y"))).getD 0
  | .alphabetic | .word => Unicode.alphabeticTable.spans (· = "Y")
  | .uppercase => Unicode.uppercaseTable.spans (· = "Y")
  | .lowercase | .cased => Unicode.lowercaseTable.spans (· = "Y")
  | .graphemeExtend | .graphemeBase => Unicode.graphemeExtendTable.spans (· = "Y")
  | .whiteSpace => 10

/-- A set of characters. -/
inductive CharClass where
  | none
  | any
  /-- From the first character to the last, both included. -/
  | range (first last : Char)
  | property (p : CharProperty)
  /-- What differs from a member in case only. -/
  | anyCase (s : CharClass)
  /-- What differs from a member in the case of an ASCII letter only. -/
  | anyAsciiCase (s : CharClass)
  | complement (s : CharClass)
  | union (s u : CharClass)
  | inter (s u : CharClass)
deriving DecidableEq, Repr

namespace CharClass

/-- A letter of the ASCII range in its two cases; any other character alone. -/
def asciiVariants (c : Char) : List Char :=
  [c, c.toLower, c.toUpper]

def mem : CharClass → Char → Bool
  | .none, _ => false
  | .any, _ => true
  | .range first last, c => first ≤ c && c ≤ last
  | .property p, c => p.holds c
  | .anyCase s, c => (Unicode.caseVariants c).any s.mem
  | .anyAsciiCase s, c => (asciiVariants c).any s.mem
  | .complement s, c => !s.mem c
  | .union s u, c => s.mem c || u.mem c
  | .inter s u, c => s.mem c && u.mem c

/-- About how much room the class takes, where an ASCII character takes one. -/
def weight : CharClass → Nat
  | .none => 1
  | .any => 20
  | .range first last =>
      if last.toNat < 128 then 1 else if first = last then last.utf8Size else 10
  | .property p => 2 * p.spans
  | .anyCase s | .anyAsciiCase s => s.weight
  | .complement s => s.weight + 20
  | .union s u | .inter s u => s.weight + u.weight

def single (c : Char) : CharClass :=
  .range c c

def diff (s u : CharClass) : CharClass :=
  .inter s (.complement u)

/-- In one of the two but not in both. -/
def symmDiff (s u : CharClass) : CharClass :=
  .union (s.diff u) (u.diff s)

def unions (ss : List CharClass) : CharClass :=
  ss.foldl .union .none

def ofChars (cs : List Char) : CharClass :=
  unions (cs.map single)

def ascii : CharClass :=
  .range '\x00' '\x7f'

end CharClass

end GraphQuery
