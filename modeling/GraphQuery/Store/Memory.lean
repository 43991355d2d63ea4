import GraphQuery.Store

/-!
# The store in memory

Values and quads are numbered in the order in which they were first seen, from zero. No value and
no quad is held twice, and quads mention only handles that were issued; the type says so.
-/

namespace GraphQuery

/-- Distinct values and distinct quads over their handles. -/
structure MemoryStore where
  values : Array Value
  quads : Array Quad
  values_nodup : values.toList.Nodup
  quads_nodup : quads.toList.Nodup
  issued : ∀ q ∈ quads.toList, ∀ d h, q.at d = some h → h.toNat < values.size

namespace MemoryStore

def empty : MemoryStore where
  values := #[]
  quads := #[]
  values_nodup := by simp
  quads_nodup := by simp
  issued := by simp

/-- The place of a value, if it is held. -/
def indexOf? (values : Array Value) (v : Value) : Option Nat :=
  values.toList.idxOf? v

def resolve (s : MemoryStore) (h : Handle) : Option Value :=
  s.values[h.toNat]?

def intern (s : MemoryStore) (v : Value) : Option Handle :=
  (indexOf? s.values v).map Handle.ofNat

def quad (s : MemoryStore) (id : QuadId) : Option Quad :=
  s.quads[id.toNat]?

def quadsWith (s : MemoryStore) (d : Direction) (h : Handle) : List QuadId :=
  ((List.range s.quads.size).filter fun i => (s.quads[i]?).bind (·.at d) = some h).map QuadId.ofNat

def nodeCount (s : MemoryStore) : Nat :=
  s.values.size

def quadCount (s : MemoryStore) : Nat :=
  s.quads.size

def nodes (s : MemoryStore) : List Handle :=
  (List.range s.nodeCount).map Handle.ofNat

def containsNode (s : MemoryStore) (h : Handle) : Bool :=
  h.toNat < s.nodeCount

def isEmpty (s : MemoryStore) : Bool :=
  s.quadCount = 0

def stats (s : MemoryStore) : StoreStats :=
  ⟨s.nodeCount, s.quadCount⟩

/-- The store as queries see it. -/
def toStore (s : MemoryStore) : QuadStore where
  resolve := s.resolve
  intern := s.intern
  quad := s.quad
  quadsWith := s.quadsWith
  nodes := s.nodes
  containsNode := s.containsNode
  stats := s.stats

theorem lt_size_of_indexOf? {values : Array Value} {v : Value} {i : Nat}
    (h : indexOf? values v = some i) : i < values.size := by
  have := (List.idxOf?_eq_some_iff.1 h).1
  simpa using this

theorem ofNat_toNat_le (n : Nat) : (Handle.ofNat n).toNat ≤ n := by
  simp only [Handle.ofNat, Handle.toNat, Nat.toUInt32, UInt32.toNat_ofNat']
  exact Nat.mod_le _ _

/-- Adds a value unless it is held, and gives its handle. -/
def addValue (s : MemoryStore) (v : Value) : Handle × MemoryStore :=
  match h : indexOf? s.values v with
  | some i => (Handle.ofNat i, s)
  | none =>
      (Handle.ofNat s.values.size,
        { values := s.values.push v
          quads := s.quads
          values_nodup := by
            have : v ∉ s.values.toList := by simpa [indexOf?, List.idxOf?_eq_none_iff] using h
            simp only [Array.toList_push]
            exact List.nodup_append.2 ⟨s.values_nodup, by simp, by
              rintro a ha b hb rfl
              simp only [List.mem_singleton] at hb
              exact this (hb ▸ ha)⟩
          quads_nodup := s.quads_nodup
          issued := by
            intro q hq d x hx
            have := s.issued q hq d x hx
            simp only [Array.size_push]
            omega })

theorem size_le_addValue (s : MemoryStore) (v : Value) :
    s.values.size ≤ (s.addValue v).2.values.size := by
  unfold addValue
  split <;> simp

theorem addValue_lt (s : MemoryStore) (v : Value) :
    (s.addValue v).1.toNat < (s.addValue v).2.values.size := by
  unfold addValue
  split
  · exact Nat.lt_of_le_of_lt (ofNat_toNat_le _) (lt_size_of_indexOf? (by assumption))
  · simpa using Nat.lt_succ_of_le (ofNat_toNat_le _)

/-- Adds a value that may be missing. -/
def addLabel (s : MemoryStore) : Option Value → Option Handle × MemoryStore
  | none => (none, s)
  | some v => (some (s.addValue v).1, (s.addValue v).2)

theorem size_le_addLabel (s : MemoryStore) (v : Option Value) :
    s.values.size ≤ (s.addLabel v).2.values.size := by
  cases v with
  | none => exact Nat.le_refl _
  | some v => exact s.size_le_addValue v

theorem addLabel_lt {s : MemoryStore} {v : Option Value} {h : Handle}
    (hv : (s.addLabel v).1 = some h) : h.toNat < (s.addLabel v).2.values.size := by
  cases v with
  | none => simp [addLabel] at hv
  | some v =>
      simp only [addLabel, Option.some.injEq] at hv
      exact hv ▸ s.addValue_lt v

/-- Adds a quad over issued handles unless it is held, and gives its identifier. -/
def insert (s : MemoryStore) (q : Quad)
    (issued : ∀ d h, q.at d = some h → h.toNat < s.values.size) : QuadId × MemoryStore :=
  match hq : s.quads.toList.idxOf? q with
  | some i => (QuadId.ofNat i, s)
  | none =>
      (QuadId.ofNat s.quads.size,
        { values := s.values
          quads := s.quads.push q
          values_nodup := s.values_nodup
          quads_nodup := by
            have : q ∉ s.quads.toList := by simpa [List.idxOf?_eq_none_iff] using hq
            simp only [Array.toList_push]
            exact List.nodup_append.2 ⟨s.quads_nodup, by simp, by
              rintro a ha b hb rfl
              simp only [List.mem_singleton] at hb
              exact this (hb ▸ ha)⟩
          issued := by
            intro p hp
            simp only [Array.toList_push, List.mem_append, List.mem_singleton] at hp
            rcases hp with hp | rfl
            · exact s.issued p hp
            · exact issued })

/-- Adds a quad and, before it, those of its values that are new: subject, predicate, object, label.
A quad that is already held keeps its identifier. -/
def addQuad (s : MemoryStore) (subject predicate object : Value) (label : Option Value) :
    QuadId × MemoryStore :=
  let a := s.addValue subject
  let b := a.2.addValue predicate
  let c := b.2.addValue object
  let d := c.2.addLabel label
  d.2.insert ⟨a.1, b.1, c.1, d.1⟩ <| by
    have ha := s.addValue_lt subject
    have hb := a.2.addValue_lt predicate
    have hc := b.2.addValue_lt object
    have hab := a.2.size_le_addValue predicate
    have hbc := b.2.size_le_addValue object
    have hcd := c.2.size_le_addLabel label
    intro dir h hh
    cases dir <;> simp only [Quad.at, Option.some.injEq] at hh
    · exact hh ▸ Nat.lt_of_lt_of_le ha (Nat.le_trans hab (Nat.le_trans hbc hcd))
    · exact hh ▸ Nat.lt_of_lt_of_le hb (Nat.le_trans hbc hcd)
    · exact hh ▸ Nat.lt_of_lt_of_le hc hcd
    · exact addLabel_lt hh

/-- Adds an unlabelled quad. -/
def addTriple (s : MemoryStore) (subject predicate object : Value) : QuadId × MemoryStore :=
  s.addQuad subject predicate object none

end MemoryStore

end GraphQuery
