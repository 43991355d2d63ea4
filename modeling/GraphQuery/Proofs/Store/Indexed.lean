import GraphQuery.Store.Indexed
import GraphQuery.Proofs.Store.Numbered
import Mathlib.Data.List.Basic

/-!
# The indexes agree

Whatever is added to an empty store, its indexes say what its two lists say: the store answers as
the store in memory does to which the same was added, and has its guarantees.
-/

namespace GraphQuery

theorem Direction.mem_all (d : Direction) : d ∈ Direction.all := by
  cases d <;> decide

/-! ## The index on the ends -/

namespace EndIndex

variable {q : Quad} {id : QuadId} {ends : EndIndex} {d e : Direction} {h : Handle} {n : UInt32}

theorem mem_fileAt :
    n ∈ (fileAt q id ends d).filed e h ↔
      e = d ∧ q.at e = some h ∧ n = id.raw ∨ n ∈ ends.filed e h := by
  cases hq : q.at d with
  | none =>
      have : ¬(e = d ∧ q.at e = some h ∧ n = id.raw) := by
        rintro ⟨rfl, hh, -⟩
        simp [hq] at hh
      simp [fileAt, hq, this]
  | some k =>
      simp only [fileAt, hq, filed, Std.HashMap.getD_insert, beq_iff_eq, Prod.mk.injEq]
      split
      · rename_i heq
        obtain ⟨rfl, rfl⟩ := heq
        simp [Std.TreeSet.mem_insert, hq, eq_comm (a := n)]
      · rename_i hne
        have : ¬(e = d ∧ q.at e = some h ∧ n = id.raw) := by
          rintro ⟨rfl, hh, -⟩
          exact hne ⟨rfl, Option.some.inj (hq.symm.trans hh)⟩
        simp [this]

/-- Filing a quad adds its number where its ends are, and nowhere else. -/
theorem mem_file :
    n ∈ (file q id ends).filed e h ↔ q.at e = some h ∧ n = id.raw ∨ n ∈ ends.filed e h := by
  have hfold : ∀ (ds : List Direction) (ends : EndIndex),
      n ∈ EndIndex.filed (ds.foldl (fileAt q id) ends) e h ↔
        e ∈ ds ∧ q.at e = some h ∧ n = id.raw ∨ n ∈ ends.filed e h := by
    intro ds
    induction ds with
    | nil => simp
    | cons d ds ih =>
        intro ends
        rw [List.foldl_cons, ih, mem_fileAt, List.mem_cons]
        tauto
  rw [file, hfold, and_iff_right (Direction.mem_all e)]

end EndIndex

/-! ## One store for another -/

namespace MemoryStore

variable {m : MemoryStore}

def add (m : MemoryStore) : Addition → MemoryStore
  | .value v => (m.addValue v).2
  | .triple subject predicate object => (m.addTriple subject predicate object).2
  | .quad subject predicate object label => (m.addQuad subject predicate object label).2

theorem extends_add (m : MemoryStore) (a : Addition) : m.Extends (m.add a) := by
  cases a with
  | value v => exact extends_addValue m v
  | triple subject predicate object => exact extends_addQuad m subject predicate object none
  | quad subject predicate object label => exact extends_addQuad m subject predicate object label

theorem mem_values_add {a : Addition} {v : Value} :
    v ∈ (m.add a).values.toList ↔ v ∈ m.values.toList ∨ v ∈ a.values := by
  cases a with
  | value u => simpa [add, Addition.values] using mem_values_addValue
  | triple subject predicate object => exact mem_values_addQuad
  | quad subject predicate object label => exact mem_values_addQuad

theorem extends_foldl (additions : List Addition) (m : MemoryStore) :
    m.Extends (additions.foldl add m) := by
  induction additions generalizing m with
  | nil => exact .refl m
  | cons a additions ih => exact (extends_add m a).trans (ih (m.add a))

theorem mem_values_foldl {additions : List Addition} {v : Value} :
    v ∈ (additions.foldl add m).values.toList ↔
      v ∈ m.values.toList ∨ v ∈ additions.flatMap Addition.values := by
  induction additions generalizing m with
  | nil => simp
  | cons a additions ih =>
      rw [List.foldl_cons, ih, mem_values_add, List.flatMap_cons, List.mem_append, or_assoc]

def ofAdditions (additions : List Addition) : MemoryStore :=
  additions.foldl add empty

theorem mem_values_ofAdditions {additions : List Addition} {v : Value} :
    v ∈ (ofAdditions additions).values.toList ↔ v ∈ additions.flatMap Addition.values := by
  rw [ofAdditions, mem_values_foldl]
  simp [empty]

theorem extends_ofAdditions (earlier later : List Addition) :
    (ofAdditions earlier).Extends (ofAdditions (earlier ++ later)) := by
  rw [ofAdditions, ofAdditions, List.foldl_append]
  exact extends_foldl later _

end MemoryStore

namespace IndexedStore

theorem pairwise_quadsWith (s : IndexedStore) (d : Direction) (h : Handle) :
    (s.quadsWith d h).Pairwise fun a b => a.toNat < b.toNat := by
  have hset : (s.ends.filed d h).toList.Pairwise fun a b => compare a b = .lt :=
    Std.TreeSet.ordered_toList
  exact List.pairwise_map.2 (hset.imp fun hlt => Std.compare_eq_lt.1 hlt)

/-- The lists are those of a store in memory, and the indexes say what can be looked up there. -/
structure Represents (s : IndexedStore) (m : MemoryStore) : Prop where
  values : s.values = m.values
  handles : ∀ v, s.handles[v]? = m.intern v
  quads : s.quads = m.quads
  quadIds : ∀ q, s.quadIds[q]? = (m.quads.toList.idxOf? q).map QuadId.ofNat
  ends : ∀ d h n, n ∈ s.ends.filed d h ↔
    ∃ i, (m.quads[i]?).bind (·.at d) = some h ∧ n = (QuadId.ofNat i).raw

namespace Represents

variable {s : IndexedStore} {m : MemoryStore}

theorem empty : IndexedStore.empty.Represents MemoryStore.empty where
  values := rfl
  handles v := by
    simp [IndexedStore.empty, MemoryStore.intern, MemoryStore.indexOf?, MemoryStore.empty]
  quads := rfl
  quadIds q := by simp [IndexedStore.empty, MemoryStore.empty]
  ends d h n := by simp [IndexedStore.empty, MemoryStore.empty, EndIndex.filed]

/-! ### What one addition preserves -/

theorem addValue (hs : s.Represents m) (v : Value) :
    (s.addValue v).1 = (m.addValue v).1 ∧ (s.addValue v).2.Represents (m.addValue v).2 := by
  have hv := hs.handles v
  cases hm : m.intern v with
  | some h =>
      rw [hm] at hv
      rw [MemoryStore.addValue_of_intern hm]
      simp only [IndexedStore.addValue, hv]
      exact ⟨trivial, hs⟩
  | none =>
      rw [hm] at hv
      obtain ⟨hid, hvalues, hquads⟩ := MemoryStore.addValue_of_new hm
      simp only [IndexedStore.addValue, hv]
      refine ⟨by rw [hid, hs.values], ?_⟩
      constructor
      case values => simp [hvalues, hs.values]
      case quads => simp [hquads, hs.quads]
      case quadIds => simpa [hquads] using hs.quadIds
      case ends => simpa [hquads] using hs.ends
      case handles =>
        intro u
        rw [Std.HashMap.getElem?_insert, MemoryStore.intern_addValue, hs.handles, hid, hs.values]
        simp only [beq_iff_eq, eq_comm (a := u)]

theorem addLabel (hs : s.Represents m) (v : Option Value) :
    (s.addLabel v).1 = (m.addLabel v).1 ∧ (s.addLabel v).2.Represents (m.addLabel v).2 := by
  cases v with
  | none => exact ⟨rfl, hs⟩
  | some v => exact (hs.addValue v).imp_left (congrArg some)

theorem insert (hs : s.Represents m) (q : Quad)
    (issued : ∀ d h, q.at d = some h → h.toNat < m.values.size) :
    (s.insert q).1 = (m.insert q issued).1 ∧ (s.insert q).2.Represents (m.insert q issued).2 := by
  have hq := hs.quadIds q
  cases hm : m.quads.toList.idxOf? q with
  | some i =>
      rw [hm] at hq
      rw [MemoryStore.insert_of_idxOf? hm]
      simp only [IndexedStore.insert, hq]
      exact ⟨rfl, hs⟩
  | none =>
      rw [hm, Option.map_none] at hq
      obtain ⟨hid, hvalues, hquads⟩ := MemoryStore.insert_of_new hm issued
      simp only [IndexedStore.insert, hq]
      refine ⟨by rw [hid, hs.quads], ?_⟩
      constructor
      case values => simp [hvalues, hs.values]
      case quads => simp [hquads, hs.quads]
      case handles => simpa [MemoryStore.intern, hvalues] using hs.handles
      case quadIds =>
        intro p
        rw [Std.HashMap.getElem?_insert, hs.quadIds, hquads, hs.quads, idxOf?_push hm,
          apply_ite (Option.map QuadId.ofNat)]
        simp only [beq_iff_eq, eq_comm (a := p), Option.map_some]
      case ends =>
        intro d h n
        rw [EndIndex.mem_file, hs.ends, hquads, hs.quads]
        simp only [Array.getElem?_push]
        constructor
        · rintro (⟨hd, rfl⟩ | ⟨i, hi, rfl⟩)
          · exact ⟨m.quads.size, by simpa using hd, rfl⟩
          · refine ⟨i, ?_, rfl⟩
            have : i ≠ m.quads.size := by
              rintro rfl
              simp at hi
            simpa [this] using hi
        · rintro ⟨i, hi, rfl⟩
          split at hi
          · rename_i heq
            exact .inl ⟨by simpa using hi, by rw [heq]⟩
          · exact .inr ⟨i, hi, rfl⟩

theorem addQuad (hs : s.Represents m) (subject predicate object : Value) (label : Option Value) :
    (s.addQuad subject predicate object label).1 = (m.addQuad subject predicate object label).1 ∧
      (s.addQuad subject predicate object label).2.Represents
        (m.addQuad subject predicate object label).2 := by
  obtain ⟨ha, hs⟩ := hs.addValue subject
  obtain ⟨hb, hs⟩ := hs.addValue predicate
  obtain ⟨hc, hs⟩ := hs.addValue object
  obtain ⟨hd, hs⟩ := hs.addLabel label
  unfold IndexedStore.addQuad MemoryStore.addQuad
  simp only [ha, hb, hc, hd]
  apply hs.insert

/-- Each addition leaves the one store representing the other. -/
theorem add (hs : s.Represents m) (a : Addition) : (s.add a).Represents (m.add a) := by
  cases a with
  | value v => exact (hs.addValue v).2
  | triple subject predicate object => exact (hs.addQuad subject predicate object none).2
  | quad subject predicate object label => exact (hs.addQuad subject predicate object label).2

/-! ### What represented stores guarantee -/

theorem resolve_eq (hs : s.Represents m) : s.resolve = m.resolve := by
  funext h
  rw [IndexedStore.resolve, MemoryStore.resolve, hs.values]

theorem intern_eq (hs : s.Represents m) : s.intern = m.intern :=
  funext hs.handles

theorem quad_eq (hs : s.Represents m) : s.quad = m.quad := by
  funext id
  rw [IndexedStore.quad, MemoryStore.quad, hs.quads]

theorem nodeCount_eq (hs : s.Represents m) : s.nodeCount = m.nodeCount :=
  congrArg Array.size hs.values

theorem quadCount_eq (hs : s.Represents m) : s.quadCount = m.quadCount :=
  congrArg Array.size hs.quads

theorem mem_quadsWith (hs : s.Represents m) (hm : m.Addressable) {d : Direction} {h : Handle}
    {id : QuadId} : id ∈ s.quadsWith d h ↔ ∃ q, m.quad id = some q ∧ q.at d = some h := by
  have hraw : id ∈ s.quadsWith d h ↔ id.raw ∈ s.ends.filed d h := by
    cases id
    simp [IndexedStore.quadsWith]
  rw [hraw, hs.ends]
  constructor
  · rintro ⟨i, hi, hid⟩
    obtain ⟨q, hq, hd⟩ := Option.bind_eq_some_iff.1 hi
    have hlt := Nat.lt_trans (Array.getElem?_eq_some_iff.1 hq).1 hm.quads_lt
    have hid : id.toNat = i := by rw [← QuadId.toNat_ofNat hlt, QuadId.toNat, hid]; rfl
    exact ⟨q, by rwa [MemoryStore.quad, hid], hd⟩
  · rintro ⟨q, hq, hd⟩
    exact ⟨id.toNat, Option.bind_eq_some_iff.2 ⟨q, hq, hd⟩, by simp [QuadId.ofNat, QuadId.toNat]⟩

theorem quadsWith_eq (hs : s.Represents m) (hm : m.Addressable) : s.quadsWith = m.quadsWith := by
  funext d h
  have hnodup {ids : List QuadId} (hids : ids.Pairwise fun a b => a.toNat < b.toNat) : ids.Nodup :=
    hids.imp fun hlt => ne_of_apply_ne QuadId.toNat (Nat.ne_of_lt hlt)
  have hs' := s.pairwise_quadsWith d h
  have hm' := MemoryStore.pairwise_quadsWith hm d h
  refine List.Perm.eq_of_pairwise (fun a b _ _ hab hba => absurd hab (Nat.lt_asymm hba)) hs' hm' ?_
  refine (List.perm_ext_iff_of_nodup (hnodup hs') (hnodup hm')).2 fun id => ?_
  rw [hs.mem_quadsWith hm, MemoryStore.mem_quadsWith hm]

/-- Queries cannot tell the two stores apart. -/
theorem toStore_eq (hs : s.Represents m) (hm : m.Addressable) : s.toStore = m.toStore := by
  have hcontains : s.containsNode = m.containsNode := by
    funext h
    rw [IndexedStore.containsNode, MemoryStore.containsNode, hs.nodeCount_eq]
  simp only [IndexedStore.toStore, MemoryStore.toStore, hs.resolve_eq, hs.intern_eq, hs.quad_eq,
    hs.quadsWith_eq hm, hcontains, IndexedStore.nodes, MemoryStore.nodes, IndexedStore.stats,
    MemoryStore.stats, hs.nodeCount_eq, hs.quadCount_eq]

/-- A quad that is held is not added again. -/
theorem addQuad_of_quad (hs : s.Represents m) {id : QuadId} {q : Quad}
    {subject predicate object : Value} {label : Option Value} (hq : m.quad id = some q)
    (hsubject : m.intern subject = some q.subject)
    (hpredicate : m.intern predicate = some q.predicate)
    (hobject : m.intern object = some q.object)
    (hlabel : label.map m.intern = q.label.map some) :
    s.addQuad subject predicate object label = (id, s) := by
  have hadd {v : Value} {h : Handle} (hv : m.intern v = some h) : s.addValue v = (h, s) := by
    simp only [IndexedStore.addValue, hs.handles, hv]
  have hl : s.addLabel label = (q.label, s) := by
    cases label with
    | none => rw [IndexedStore.addLabel, Option.map_eq_none_iff.1 hlabel.symm]
    | some v =>
        obtain ⟨h, hh, hv⟩ := Option.map_eq_some_iff.1 hlabel.symm
        rw [IndexedStore.addLabel, hadd hv.symm, hh]
  have hidx : m.quads.toList.idxOf? q = some id.toNat :=
    (idxOf?_eq_some_iff_of_nodup m.quads_nodup).2 hq
  simp only [IndexedStore.addQuad, hadd hsubject, hadd hpredicate, hadd hobject, hl,
    IndexedStore.insert, hs.quadIds, hidx, Option.map_some]
  simp [QuadId.ofNat, QuadId.toNat]

end Represents

/-! ## Every store that additions build -/

/-- The two lists and the three indexes of a store to which `added` was added agree. -/
structure Agreed (s : IndexedStore) (added : List Value) : Prop where
  /-- Handles and values determine each other. -/
  resolve_iff : ∀ h v, s.resolve h = some v ↔ s.intern v = some h
  /-- The handles are the numbers below the count of the values. -/
  issued_iff : ∀ h, (s.resolve h).isSome = true ↔ h.toNat < s.nodeCount
  /-- The values are those that were added. -/
  held_iff : ∀ v, (s.intern v).isSome = true ↔ v ∈ added
  /-- No quad is held twice. -/
  nodup : s.quads.toList.Nodup
  /-- Quads mention only handles that were issued. -/
  issued : ∀ id q d h, s.quad id = some q → q.at d = some h → h.toNat < s.nodeCount
  /-- The quads at a handle are listed in ascending order, without repetition. -/
  ascending : ∀ d h, (s.quadsWith d h).Pairwise fun a b => a.toNat < b.toNat
  /-- They are exactly those with the handle at that end. -/
  mem_quadsWith_iff : ∀ d h id, id ∈ s.quadsWith d h ↔ ∃ q, s.quad id = some q ∧ q.at d = some h
  /-- Adding a quad that is held gives its number, and the store as it was. -/
  addQuad_eq : ∀ id q subject predicate object label, s.quad id = some q →
    s.resolve q.subject = some subject → s.resolve q.predicate = some predicate →
    s.resolve q.object = some object → q.label.map s.resolve = label.map some →
    s.addQuad subject predicate object label = (id, s)

theorem Represents.agreed {s : IndexedStore} {m : MemoryStore} (hs : s.Represents m)
    (hm : m.Addressable) : s.Agreed m.values.toList := by
  constructor
  case resolve_iff =>
    intro h v
    rw [hs.resolve_eq, hs.intern_eq]
    exact MemoryStore.resolve_eq_some_iff hm
  case issued_iff =>
    intro h
    rw [hs.resolve_eq, hs.nodeCount_eq]
    exact MemoryStore.isSome_resolve
  case held_iff =>
    intro v
    rw [hs.intern_eq]
    exact MemoryStore.isSome_intern
  case nodup =>
    rw [hs.quads]
    exact m.quads_nodup
  case issued =>
    intro id q d h hq hd
    rw [hs.quad_eq] at hq
    obtain ⟨hlt, rfl⟩ := Array.getElem?_eq_some_iff.1 hq
    rw [hs.nodeCount_eq]
    exact m.issued _ (Array.getElem_mem_toList hlt) d h hd
  case ascending => exact s.pairwise_quadsWith
  case mem_quadsWith_iff =>
    intro d h id
    rw [hs.quad_eq]
    exact hs.mem_quadsWith hm
  case addQuad_eq =>
    intro id q subject predicate object label hq hsubject hpredicate hobject hlabel
    simp only [hs.quad_eq, hs.resolve_eq, MemoryStore.resolve_eq_some_iff hm] at *
    refine hs.addQuad_of_quad hq hsubject hpredicate hobject ?_
    cases label with
    | none => simp [Option.map_eq_none_iff.1 hlabel]
    | some v =>
        obtain ⟨h, hh, hv⟩ := Option.map_eq_some_iff.1 hlabel
        simp [hh, (MemoryStore.resolve_eq_some_iff hm).1 hv]

/-! ### A run of additions -/

theorem Represents.foldl {s : IndexedStore} {m : MemoryStore} (additions : List Addition)
    (hs : s.Represents m) :
    (additions.foldl IndexedStore.add s).Represents (additions.foldl MemoryStore.add m) := by
  induction additions generalizing s m with
  | nil => exact hs
  | cons a additions ih => exact ih (hs.add a)

theorem represents_ofAdditions (additions : List Addition) :
    (ofAdditions additions).Represents (MemoryStore.ofAdditions additions) :=
  Represents.empty.foldl additions

/-- Whatever is added to an empty store, as long as thirty-two bits tell the values and the quads
apart, its parts agree, and later additions change nothing about a handle that was issued. -/
theorem agreed_ofAdditions (earlier later : List Addition)
    (hvalues : (ofAdditions (earlier ++ later)).nodeCount < UInt32.size)
    (hquads : (ofAdditions (earlier ++ later)).quadCount < UInt32.size) :
    (ofAdditions (earlier ++ later)).Agreed ((earlier ++ later).flatMap Addition.values) ∧
      ∀ h v, (ofAdditions earlier).resolve h = some v →
        (ofAdditions (earlier ++ later)).resolve h = some v ∧
          (ofAdditions (earlier ++ later)).intern v = some h := by
  have hrun := represents_ofAdditions (earlier ++ later)
  have hm : (MemoryStore.ofAdditions (earlier ++ later)).Addressable :=
    ⟨lt_of_eq_of_lt hrun.nodeCount_eq.symm hvalues,
      lt_of_eq_of_lt hrun.quadCount_eq.symm hquads⟩
  have hagreed := hrun.agreed hm
  refine ⟨{ hagreed with held_iff := fun v => ?_ }, fun h v hv => ?_⟩
  · rw [hagreed.held_iff, MemoryStore.mem_values_ofAdditions]
  · have hlater : (ofAdditions (earlier ++ later)).resolve h = some v := by
      rw [(represents_ofAdditions _).resolve_eq] at hv ⊢
      exact (MemoryStore.extends_ofAdditions earlier later).resolve hv
    exact ⟨hlater, (hagreed.resolve_iff h v).1 hlater⟩

/-- Two quads between the same values are told apart by their labels. -/
theorem agreed_ofAdditions_labelled :
    (ofAdditions ([.triple (.iri "a") (.iri "p") (.iri "a")] ++
      [.value (.int 1), .quad (.iri "a") (.iri "p") (.iri "a") (some (.iri "g"))])).Agreed
        [.iri "a", .iri "p", .iri "a", .int 1, .iri "a", .iri "p", .iri "a", .iri "g"] :=
  (agreed_ofAdditions [.triple (.iri "a") (.iri "p") (.iri "a")]
    [.value (.int 1), .quad (.iri "a") (.iri "p") (.iri "a") (some (.iri "g"))]
    ((represents_ofAdditions _).nodeCount_eq ▸ by decide)
    ((represents_ofAdditions _).quadCount_eq ▸ by decide)).1

end IndexedStore

end GraphQuery
