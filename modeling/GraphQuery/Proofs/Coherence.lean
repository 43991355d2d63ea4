import GraphQuery.Store.Memory

/-!
# Coherent stores

The parts of a store describe one graph: every node resolves, everything else mentioned is a node,
and the quads at a handle are picked from one list. A store in memory is coherent as long as its
values and quads can be told apart by thirty-two bits.
-/

namespace GraphQuery

/-- The parts of a store agree. -/
structure QuadStore.Coherent (store : QuadStore) : Prop where
  nodup : store.nodes.Nodup
  containsNode_iff : ∀ h, store.containsNode h = true ↔ h ∈ store.nodes
  resolve_iff : ∀ h, (store.resolve h).isSome = true ↔ h ∈ store.nodes
  mem_of_intern : ∀ {v h}, store.intern v = some h → h ∈ store.nodes
  mem_of_at : ∀ {id q d h}, store.quad id = some q → q.at d = some h → h ∈ store.nodes
  listed : ∃ ids : List QuadId, ∀ d h,
    store.quadsWith d h = ids.filter fun id => (store.quad id).bind (·.at d) = some h

namespace QuadStore.Coherent

variable {store : QuadStore}

theorem exists_value (hs : store.Coherent) {h : Handle} (hh : h ∈ store.nodes) :
    ∃ v, store.resolve h = some v :=
  Option.isSome_iff_exists.1 ((hs.resolve_iff h).2 hh)

end QuadStore.Coherent

theorem Handle.toNat_ofNat {n : Nat} (hn : n < UInt32.size) : (Handle.ofNat n).toNat = n := by
  have : n % 2 ^ 32 = n := Nat.mod_eq_of_lt hn
  simpa [Handle.ofNat, Handle.toNat, Nat.toUInt32] using this

theorem QuadId.toNat_ofNat {n : Nat} (hn : n < UInt32.size) : (QuadId.ofNat n).toNat = n := by
  have : n % 2 ^ 32 = n := Nat.mod_eq_of_lt hn
  simpa [QuadId.ofNat, QuadId.toNat, Nat.toUInt32] using this

namespace MemoryStore

/-- Every value and every quad has a number of thirty-two bits to itself. -/
structure Addressable (s : MemoryStore) : Prop where
  values_lt : s.values.size < UInt32.size
  quads_lt : s.quads.size < UInt32.size

variable {s : MemoryStore}

theorem mem_nodes (hs : s.Addressable) (h : Handle) : h ∈ s.nodes ↔ h.toNat < s.values.size := by
  constructor
  · intro hh
    obtain ⟨i, hi, rfl⟩ := List.mem_map.1 hh
    have hi : i < s.values.size := List.mem_range.1 hi
    rwa [Handle.toNat_ofNat (Nat.lt_trans hi hs.values_lt)]
  · intro hh
    refine List.mem_map.2 ⟨h.toNat, List.mem_range.2 hh, ?_⟩
    exact Handle.toNat_inj (Handle.toNat_ofNat h.toNat_lt)

theorem nodup_nodes (hs : s.Addressable) : s.nodes.Nodup := by
  refine List.pairwise_map.2 (List.nodup_range.imp_of_mem fun hi hj hne heq => hne ?_)
  have hi := Nat.lt_trans (List.mem_range.1 hi) hs.values_lt
  have hj := Nat.lt_trans (List.mem_range.1 hj) hs.values_lt
  have := congrArg Handle.toNat heq
  rwa [Handle.toNat_ofNat hi, Handle.toNat_ofNat hj] at this

def quadIds (s : MemoryStore) : List QuadId :=
  (List.range s.quads.size).map QuadId.ofNat

theorem quadsWith_eq (hs : s.Addressable) (d : Direction) (h : Handle) :
    s.quadsWith d h = s.quadIds.filter fun id => (s.quad id).bind (·.at d) = some h := by
  rw [quadsWith, quadIds, List.filter_map]
  congr 1
  refine List.filter_congr fun i hi => ?_
  have hi := Nat.lt_trans (List.mem_range.1 hi) hs.quads_lt
  simp only [Function.comp_apply, quad, QuadId.toNat_ofNat hi]

theorem exists_intern (hs : s.Addressable) {h : Handle} {v : Value} (hv : s.resolve h = some v) :
    ∃ h', s.intern v = some h' ∧ s.resolve h' = some v := by
  obtain ⟨hlt, hget⟩ := Array.getElem?_eq_some_iff.1 hv
  have hmem : v ∈ s.values.toList := hget ▸ Array.getElem_mem_toList hlt
  obtain ⟨i, hi⟩ := Option.isSome_iff_exists.1 (List.isSome_idxOf?.2 hmem)
  have hi : indexOf? s.values v = some i := hi
  obtain ⟨hlt', hget', -⟩ := List.idxOf?_eq_some_iff.1 hi
  refine ⟨.ofNat i, by rw [intern, hi]; rfl, ?_⟩
  rw [resolve, Handle.toNat_ofNat (Nat.lt_trans (lt_size_of_indexOf? hi) hs.values_lt)]
  exact Array.getElem?_eq_some_iff.2 ⟨lt_size_of_indexOf? hi, by simpa using hget'⟩

theorem coherent (hs : s.Addressable) : s.toStore.Coherent where
  nodup := nodup_nodes hs
  containsNode_iff h := by
    rw [show s.toStore.nodes = s.nodes from rfl, mem_nodes hs]
    exact decide_eq_true_iff
  resolve_iff h := by
    rw [show s.toStore.nodes = s.nodes from rfl, mem_nodes hs]
    simp [toStore, resolve]
  mem_of_intern := by
    intro v h hv
    rw [show s.toStore.nodes = s.nodes from rfl, mem_nodes hs]
    obtain ⟨i, hi, rfl⟩ := Option.map_eq_some_iff.1 hv
    have hi := lt_size_of_indexOf? hi
    rwa [Handle.toNat_ofNat (Nat.lt_trans hi hs.values_lt)]
  mem_of_at := by
    intro id q d h hq hd
    rw [show s.toStore.nodes = s.nodes from rfl, mem_nodes hs]
    obtain ⟨hi, rfl⟩ := Array.getElem?_eq_some_iff.1 hq
    exact s.issued _ (Array.getElem_mem_toList hi) d h hd
  listed := ⟨s.quadIds, quadsWith_eq hs⟩

theorem mem_nodes_of_resolve (hs : s.Addressable) {h : Handle} {v : Value}
    (hv : s.resolve h = some v) : h ∈ s.toStore.nodes :=
  ((coherent hs).resolve_iff h).1 (Option.isSome_of_eq_some hv)

end MemoryStore

end GraphQuery
