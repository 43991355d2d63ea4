import GraphQuery.Store.Memory
import Std.Data.HashMap
import Std.Data.TreeSet

/-!
# The store with its indexes

A store that looks nothing up by going through its lists: beside the values and the quads it keeps
the handle of every value, the identifier of every quad, and for each end and handle the set of the
quads with that handle at that end. Nothing in the type says that the five agree.
-/

namespace GraphQuery

/-- For an end and a handle the numbers of the quads with that handle at that end. -/
abbrev EndIndex : Type :=
  Std.HashMap (Direction × Handle) (Std.TreeSet UInt32)

/-- Values and quads by their numbers, and the indexes on them. -/
structure IndexedStore where
  values : Array Value := #[]
  handles : Std.HashMap Value Handle := ∅
  quads : Array Quad := #[]
  quadIds : Std.HashMap Quad QuadId := ∅
  ends : EndIndex := ∅

/-- Every end of a quad. -/
def Direction.all : List Direction :=
  [.subject, .predicate, .object, .label]

namespace EndIndex

/-- The numbers filed under an end and a handle. -/
def filed (ends : EndIndex) (d : Direction) (h : Handle) : Std.TreeSet UInt32 :=
  ends.getD (d, h) ∅

/-- Files a number under one end of a quad, if there is anything at that end. -/
def fileAt (q : Quad) (id : QuadId) (ends : EndIndex) (d : Direction) : EndIndex :=
  match q.at d with
  | none => ends
  | some h => ends.insert (d, h) ((ends.filed d h).insert id.raw)

/-- Files a number under every end of a quad. -/
def file (q : Quad) (id : QuadId) (ends : EndIndex) : EndIndex :=
  Direction.all.foldl (fileAt q id) ends

end EndIndex

namespace IndexedStore

def empty : IndexedStore :=
  {}

/-! ## What is held -/

def resolve (s : IndexedStore) (h : Handle) : Option Value :=
  s.values[h.toNat]?

def intern (s : IndexedStore) (v : Value) : Option Handle :=
  s.handles[v]?

def quad (s : IndexedStore) (id : QuadId) : Option Quad :=
  s.quads[id.toNat]?

/-- The set of quads at a handle, in ascending order. -/
def quadsWith (s : IndexedStore) (d : Direction) (h : Handle) : List QuadId :=
  (s.ends.filed d h).toList.map QuadId.mk

def nodeCount (s : IndexedStore) : Nat :=
  s.values.size

def quadCount (s : IndexedStore) : Nat :=
  s.quads.size

def nodes (s : IndexedStore) : List Handle :=
  (List.range s.nodeCount).map Handle.ofNat

def containsNode (s : IndexedStore) (h : Handle) : Bool :=
  h.toNat < s.nodeCount

def isEmpty (s : IndexedStore) : Bool :=
  s.quadCount = 0

def stats (s : IndexedStore) : StoreStats :=
  ⟨s.nodeCount, s.quadCount⟩

/-- The store as queries see it. -/
def toStore (s : IndexedStore) : QuadStore where
  resolve := s.resolve
  intern := s.intern
  quad := s.quad
  quadsWith := s.quadsWith
  nodes := s.nodes
  containsNode := s.containsNode
  stats := s.stats

/-! ## Additions -/

/-- Adds a value unless it is held, and gives its handle. -/
def addValue (s : IndexedStore) (v : Value) : Handle × IndexedStore :=
  match s.handles[v]? with
  | some h => (h, s)
  | none =>
      let h := Handle.ofNat s.values.size
      (h, { s with handles := s.handles.insert v h, values := s.values.push v })

/-- Adds a value that may be missing. -/
def addLabel (s : IndexedStore) : Option Value → Option Handle × IndexedStore
  | none => (none, s)
  | some v => (some (s.addValue v).1, (s.addValue v).2)

/-- Adds a quad over issued handles unless it is held, and gives its identifier. -/
def insert (s : IndexedStore) (q : Quad) : QuadId × IndexedStore :=
  match s.quadIds[q]? with
  | some id => (id, s)
  | none =>
      let id := QuadId.ofNat s.quads.size
      (id, { s with
        ends := s.ends.file q id
        quadIds := s.quadIds.insert q id
        quads := s.quads.push q })

/-- Adds a quad and, before it, those of its values that are new: subject, predicate, object, label.
A quad that is already held keeps its identifier. -/
def addQuad (s : IndexedStore) (subject predicate object : Value) (label : Option Value) :
    QuadId × IndexedStore :=
  let a := s.addValue subject
  let b := a.2.addValue predicate
  let c := b.2.addValue object
  let d := c.2.addLabel label
  d.2.insert ⟨a.1, b.1, c.1, d.1⟩

/-- Adds an unlabelled quad. -/
def addTriple (s : IndexedStore) (subject predicate object : Value) : QuadId × IndexedStore :=
  s.addQuad subject predicate object none

end IndexedStore

/-- One addition to a store. -/
inductive Addition where
  | value (v : Value)
  | triple (subject predicate object : Value)
  | quad (subject predicate object : Value) (label : Option Value)

namespace Addition

/-- The values that an addition brings. -/
def values : Addition → List Value
  | .value v => [v]
  | .triple subject predicate object => [subject, predicate, object]
  | .quad subject predicate object label => subject :: predicate :: object :: label.toList

end Addition

namespace IndexedStore

/-- The store after an addition. -/
def add (s : IndexedStore) : Addition → IndexedStore
  | .value v => (s.addValue v).2
  | .triple subject predicate object => (s.addTriple subject predicate object).2
  | .quad subject predicate object label => (s.addQuad subject predicate object label).2

/-- The store after additions to an empty one. -/
def ofAdditions (additions : List Addition) : IndexedStore :=
  additions.foldl add empty

end IndexedStore

end GraphQuery
