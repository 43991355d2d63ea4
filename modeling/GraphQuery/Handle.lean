/-!
# Handles and quads

A store names values by handles and edges by quad identifiers. Both are thirty-two bit numbers
that mean nothing outside the store that issued them.
-/

namespace GraphQuery

/-- The name a store gives to a value. There are finitely many, which bounds every closure. -/
structure Handle where
  raw : UInt32
deriving DecidableEq, Hashable, Inhabited, Repr

/-- The name a store gives to a quad. -/
structure QuadId where
  raw : UInt32
deriving DecidableEq, Hashable, Inhabited, Repr

namespace Handle

/-- The handle with this number, modulo `2 ^ 32`. -/
def ofNat (n : Nat) : Handle :=
  ⟨n.toUInt32⟩

def toNat (h : Handle) : Nat :=
  h.raw.toNat

def render (h : Handle) : String :=
  "#" ++ toString h.toNat

theorem toNat_lt (h : Handle) : h.toNat < UInt32.size :=
  h.raw.toNat_lt_size

theorem toNat_inj {a b : Handle} (h : a.toNat = b.toNat) : a = b := by
  cases a
  cases b
  simpa [toNat] using UInt32.toNat_inj.1 h

end Handle

namespace QuadId

/-- The identifier with this number, modulo `2 ^ 32`. -/
def ofNat (n : Nat) : QuadId :=
  ⟨n.toUInt32⟩

def toNat (q : QuadId) : Nat :=
  q.raw.toNat

end QuadId

/-- An end of a quad, or its label. -/
inductive Direction where
  | subject
  | predicate
  | object
  | label
deriving DecidableEq, Hashable, Inhabited, Repr

/-- An edge from `subject` to `object`, of the kind `predicate`, perhaps filed under `label`. -/
structure Quad where
  subject : Handle
  predicate : Handle
  object : Handle
  label : Option Handle
deriving DecidableEq, Hashable, Inhabited, Repr

/-- The handle at one end; only the label may be missing. -/
def Quad.at (q : Quad) : Direction → Option Handle
  | .subject => some q.subject
  | .predicate => some q.predicate
  | .object => some q.object
  | .label => q.label

/-- Handles in a fixed order, none of them twice. -/
structure HandleList where
  toList : List Handle
  nodup : toList.Nodup
deriving DecidableEq

namespace HandleList

/-- First occurrences, in order. -/
def distinct : List Handle → List Handle
  | [] => []
  | h :: hs => h :: (distinct hs).filter (· ≠ h)

theorem mem_distinct {h : Handle} {hs : List Handle} : h ∈ distinct hs ↔ h ∈ hs := by
  induction hs with
  | nil => simp [distinct]
  | cons a hs ih =>
      by_cases ha : h = a
      · simp [distinct, ha]
      · simp [distinct, ih, ha]

theorem nodup_distinct (hs : List Handle) : (distinct hs).Nodup := by
  induction hs with
  | nil => simp [distinct]
  | cons a hs ih =>
      simp only [distinct, List.nodup_cons]
      exact ⟨by simp, ih.filter _⟩

/-- Later repetitions are dropped. -/
def ofList (hs : List Handle) : HandleList :=
  ⟨distinct hs, nodup_distinct hs⟩

def isEmpty (hs : HandleList) : Bool :=
  hs.toList.isEmpty

def size (hs : HandleList) : Nat :=
  hs.toList.length

def contains (hs : HandleList) (h : Handle) : Bool :=
  hs.toList.contains h

/-- The handles that satisfy `p`, in the same order. -/
def filter (p : Handle → Bool) (hs : HandleList) : HandleList :=
  ⟨hs.toList.filter p, hs.nodup.filter _⟩

@[simp] theorem mem_toList_ofList {h : Handle} {hs : List Handle} :
    h ∈ (ofList hs).toList ↔ h ∈ hs :=
  mem_distinct

@[simp] theorem toList_filter (p : Handle → Bool) (hs : HandleList) :
    (hs.filter p).toList = hs.toList.filter p :=
  rfl

/-! ## Sizes -/

theorem length_le_of_nodup {α : Type} [DecidableEq α] : ∀ {l l' : List α}, l.Nodup →
    (∀ a ∈ l, a ∈ l') → l.length ≤ l'.length
  | [], _, _, _ => Nat.zero_le _
  | a :: l, l', hn, hs => by
      rw [List.nodup_cons] at hn
      have ha := hs a (List.mem_cons_self ..)
      have hl : l.length ≤ (l'.erase a).length := length_le_of_nodup hn.2 fun b hb =>
        (List.mem_erase_of_ne fun h : b = a => hn.1 (h ▸ hb)).2 (hs b (List.mem_cons_of_mem _ hb))
      rw [List.length_erase_of_mem ha] at hl
      have := List.length_pos_of_mem ha
      simp only [List.length_cons]
      omega

theorem length_le_of_lt {n : Nat} {l : List Nat} (hn : l.Nodup) (hl : ∀ a ∈ l, a < n) :
    l.length ≤ n := by
  have h : l.length ≤ (List.range n).length :=
    length_le_of_nodup hn fun a ha => List.mem_range.2 (hl a ha)
  simpa using h

/-- There are no more handles than numbers of thirty-two bits. -/
theorem size_le (hs : HandleList) : hs.size ≤ UInt32.size := by
  have := length_le_of_lt (n := UInt32.size) (l := hs.toList.map Handle.toNat)
    (List.pairwise_map.2 (hs.nodup.imp fun h h' => h (Handle.toNat_inj h')))
    (by
      intro a ha
      obtain ⟨h, _, rfl⟩ := List.mem_map.1 ha
      exact h.toNat_lt)
  simpa [size] using this

/-- A list with all the handles of another and one more is longer. -/
theorem size_lt {hs hs' : HandleList} (hsub : ∀ h ∈ hs.toList, h ∈ hs'.toList) {x : Handle}
    (hx : x ∉ hs.toList) (hx' : x ∈ hs'.toList) : hs.size < hs'.size :=
  length_le_of_nodup (l := x :: hs.toList) (List.nodup_cons.2 ⟨hx, hs.nodup⟩) fun h hh => by
    rcases List.mem_cons.1 hh with rfl | hh
    · exact hx'
    · exact hsub h hh

end HandleList

end GraphQuery
