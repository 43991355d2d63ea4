import GraphQuery.Number.Binary64
import GraphQuery.Instant
import GraphQuery.Text.Quoted

/-!
# Graph values

The values that handles stand for, their kinds, and the two orders on them: `compare?` relates
values of one family only, `totalCompare` is a linear order on all of them in which equal means
identical.
-/

namespace GraphQuery

/-- A value in a graph. Equality is identity: floats count by their bits. -/
inductive Value where
  | iri (text : String)
  /-- A blank node and its label. -/
  | blank (label : String)
  | str (text : String)
  | lang (text language : String)
  | typed (text datatype : String)
  | int (n : Int64)
  | float (x : Binary64)
  | bool (b : Bool)
  | time (t : Instant)
deriving DecidableEq, Hashable, Inhabited, Repr

/-- What sort of value it is. -/
inductive Kind where
  | iri
  | blank
  | str
  | lang
  | typed
  | int
  | float
  | bool
  | time
deriving DecidableEq, Inhabited, Repr

namespace Kind

def name : Kind → String
  | .iri => "iri"
  | .blank => "bnode"
  | .str => "str"
  | .lang => "lang"
  | .typed => "typed"
  | .int => "int"
  | .float => "float"
  | .bool => "bool"
  | .time => "time"

/-- Every kind, references first. -/
def all : List Kind :=
  [.iri, .blank, .str, .lang, .typed, .int, .float, .bool, .time]

/-- The kinds that are literals rather than references. -/
def literals : List Kind :=
  [.str, .lang, .typed, .int, .float, .bool, .time]

/-- The kind of this name; `date` is an older name of `time`. -/
def ofName? (name : String) : Option Kind :=
  if name = "date" then some .time else all.find? (·.name = name)

theorem ofName?_name (k : Kind) : ofName? k.name = some k := by
  cases k <;> decide

end Kind

/-- A name that no kind has. -/
structure UnknownKind where
  name : String
deriving DecidableEq, Repr

def UnknownKind.message (e : UnknownKind) : String :=
  "unknown value kind " ++ Quoted.quote e.name

/-- The kind of this name. -/
def Kind.parse (name : String) : Except UnknownKind Kind :=
  match ofName? name with
  | some k => .ok k
  | none => .error ⟨name⟩

theorem Kind.parse_name (k : Kind) : parse k.name = .ok k := by
  simp [parse, ofName?_name]

namespace Value

def kind : Value → Kind
  | .iri _ => .iri
  | .blank _ => .blank
  | .str _ => .str
  | .lang _ _ => .lang
  | .typed _ _ => .typed
  | .int _ => .int
  | .float _ => .float
  | .bool _ => .bool
  | .time _ => .time

/-- IRIs and blank nodes refer to things; all other values are literals. -/
def isReference : Value → Bool
  | .iri _ | .blank _ => true
  | _ => false

def isLiteral (v : Value) : Bool :=
  Kind.literals.contains v.kind

/-- The bare text of references and of the literals that have one. -/
def text? : Value → Option String
  | .iri s | .blank s | .str s | .lang s _ | .typed s _ => some s
  | _ => none

/-- Shorthand: `<x>` is an IRI, `_:x` a blank node and any other text a string. -/
def ofShorthand (text : String) : Value :=
  let cs := text.toList
  if 2 ≤ cs.length && cs.head? = some '<' && cs.getLast? = some '>' then
    .iri (String.ofList (cs.tail.dropLast))
  else
    match cs with
    | '_' :: ':' :: rest => .blank (String.ofList rest)
    | _ => .str text

/-! ## Orders -/

/-- An integer among the doubles: the nearest one. -/
def rounded (n : Int64) : Binary64 :=
  .ofInt n.toInt

/-- Order within a family: numbers, instants, truth values, and the texts of one kind, one language
or one datatype. Values of two families are not comparable, nor is a NaN with anything. -/
def compare? : Value → Value → Option Ordering
  | .int a, .int b => some (compare a.toInt b.toInt)
  | .int a, .float b => (rounded a).compare? b
  | .float a, .int b => a.compare? (rounded b)
  | .float a, .float b => a.compare? b
  | .str a, .str b => some (compare a b)
  | .iri a, .iri b => some (compare a b)
  | .blank a, .blank b => some (compare a b)
  | .bool a, .bool b => some (compare a b)
  | .time a, .time b => some (a.compare b)
  | .lang a la, .lang b lb => if la = lb then some (compare a b) else none
  | .typed a da, .typed b db => if da = db then some (compare a b) else none
  | _, _ => none

/-- The place of the kind in the total order; numbers share one. -/
def rank : Value → Nat
  | .iri _ => 0
  | .blank _ => 1
  | .str _ => 2
  | .lang _ _ => 3
  | .typed _ _ => 4
  | .int _ | .float _ => 5
  | .bool _ => 6
  | .time _ => 7

/-- Order by rank, then within the rank. An integer and a double are compared as doubles, and the
integer is the lesser of two equal ones. -/
def totalCompare (a b : Value) : Ordering :=
  (compare a.rank b.rank).then <|
    match a, b with
    | .int a, .int b => compare a.toInt b.toInt
    | .float a, .float b => a.totalCompare b
    | .int a, .float b => ((rounded a).totalCompare b).then .lt
    | .float a, .int b => (a.totalCompare (rounded b)).then .gt
    | .lang a la, .lang b lb => (compare a b).then (compare la lb)
    | .typed a da, .typed b db => (compare a b).then (compare da db)
    | a, b => (a.compare? b).getD .eq

/-- Ascending total order; equal values keep their places. -/
def sort (values : List Value) : List Value :=
  values.mergeSort fun a b => a.totalCompare b != .gt

end Value

end GraphQuery
