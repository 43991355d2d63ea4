import GraphQuery.Proofs.Coherence

/-!
# The numbers that a store gives

In a store in memory a handle and the value it stands for determine each other, and the quads at a
handle are listed in ascending order. Additions only append, so that they change no number given
before, and adding what is held changes nothing at all.
-/

namespace GraphQuery

theorem idxOf?_eq_some_iff_of_nodup {α : Type} [DecidableEq α] {xs : Array α}
    (hxs : xs.toList.Nodup) {a : α} {i : Nat} :
    xs.toList.idxOf? a = some i ↔ xs[i]? = some a := by
  rw [List.idxOf?_eq_some_iff, Array.getElem?_eq_some_iff]
  constructor
  · rintro ⟨hlt, hget, -⟩
    exact ⟨by simpa using hlt, by simpa using hget⟩
  · rintro ⟨hlt, rfl⟩
    have hlt' : i < xs.toList.length := by simpa using hlt
    refine ⟨hlt', Array.getElem_toList .., fun j hj heq => ?_⟩
    exact List.pairwise_iff_getElem.1 hxs j i _ hlt' hj (heq.trans (Array.getElem_toList ..).symm)

theorem idxOf?_push {α : Type} [DecidableEq α] {xs : Array α} {a : α}
    (ha : xs.toList.idxOf? a = none) (b : α) :
    (xs.push a).toList.idxOf? b = if b = a then some xs.size else xs.toList.idxOf? b := by
  have happend : (xs.toList ++ [a]).idxOf? b =
      (xs.toList.idxOf? b).or (([a].idxOf? b).map (· + xs.toList.length)) :=
    List.findIdx?_append
  rw [Array.toList_push, happend]
  by_cases hb : b = a
  · simp [hb, ha]
  · simp [hb, Ne.symm hb]

theorem getElem?_of_prefix {α : Type} {xs ys : Array α} (h : xs.toList <+: ys.toList) {i : Nat}
    {a : α} (ha : xs[i]? = some a) : ys[i]? = some a := by
  obtain ⟨hlt, rfl⟩ := Array.getElem?_eq_some_iff.1 ha
  have := List.prefix_iff_getElem?.1 h i (by simpa using hlt)
  rwa [Array.getElem_toList, Array.getElem?_toList] at this

namespace MemoryStore

variable {s s' s'' : MemoryStore}

/-! ## Values -/

theorem intern_eq_some_iff {v : Value} {h : Handle} :
    s.intern v = some h ↔ ∃ i, s.values[i]? = some v ∧ Handle.ofNat i = h := by
  simp [intern, indexOf?, Option.map_eq_some_iff, idxOf?_eq_some_iff_of_nodup s.values_nodup]

theorem isSome_intern {v : Value} : (s.intern v).isSome = true ↔ v ∈ s.values.toList := by
  rw [intern, Option.isSome_map, indexOf?, List.isSome_idxOf?]

theorem isSome_resolve {h : Handle} : (s.resolve h).isSome = true ↔ h.toNat < s.nodeCount := by
  simp [resolve, nodeCount]

/-- Handles and values determine each other. -/
theorem resolve_eq_some_iff (hs : s.Addressable) {h : Handle} {v : Value} :
    s.resolve h = some v ↔ s.intern v = some h := by
  rw [intern_eq_some_iff]
  constructor
  · intro hv
    exact ⟨h.toNat, hv, Handle.toNat_inj (Handle.toNat_ofNat h.toNat_lt)⟩
  · rintro ⟨i, hi, rfl⟩
    have hlt := (Array.getElem?_eq_some_iff.1 hi).1
    rwa [resolve, Handle.toNat_ofNat (Nat.lt_trans hlt hs.values_lt)]

/-! ## Quads -/

theorem mem_quadsWith (hs : s.Addressable) {d : Direction} {h : Handle} {id : QuadId} :
    id ∈ s.quadsWith d h ↔ ∃ q, s.quad id = some q ∧ q.at d = some h := by
  rw [quadsWith_eq hs, List.mem_filter, decide_eq_true_iff, Option.bind_eq_some_iff]
  refine and_iff_right_of_imp ?_
  rintro ⟨q, hq, -⟩
  have hlt := (Array.getElem?_eq_some_iff.1 hq).1
  refine List.mem_map.2 ⟨id.toNat, List.mem_range.2 hlt, ?_⟩
  cases id
  simp [QuadId.ofNat, QuadId.toNat]

theorem pairwise_quadsWith (hs : s.Addressable) (d : Direction) (h : Handle) :
    (s.quadsWith d h).Pairwise fun a b => a.toNat < b.toNat := by
  refine List.pairwise_map.2 ((List.pairwise_lt_range.filter _).imp_of_mem ?_)
  intro i j hi hj hlt
  have hi := Nat.lt_trans (List.mem_range.1 (List.mem_filter.1 hi).1) hs.quads_lt
  have hj := Nat.lt_trans (List.mem_range.1 (List.mem_filter.1 hj).1) hs.quads_lt
  rwa [QuadId.toNat_ofNat hi, QuadId.toNat_ofNat hj]

/-! ## Additions -/

theorem addValue_of_intern {v : Value} {h : Handle} (hv : s.intern v = some h) :
    s.addValue v = (h, s) := by
  obtain ⟨i, hi, rfl⟩ := Option.map_eq_some_iff.1 hv
  unfold addValue
  split <;> simp_all

theorem addValue_of_new {v : Value} (hv : s.intern v = none) :
    (s.addValue v).1 = Handle.ofNat s.values.size ∧
      (s.addValue v).2.values = s.values.push v ∧ (s.addValue v).2.quads = s.quads := by
  have hv : indexOf? s.values v = none := by simpa [intern] using hv
  unfold addValue
  split <;> simp_all

theorem intern_addValue (s : MemoryStore) (u v : Value) :
    (s.addValue v).2.intern u = if u = v then some (s.addValue v).1 else s.intern u := by
  cases hv : s.intern v with
  | some h =>
      rw [addValue_of_intern hv]
      split
      · simp [*]
      · rfl
  | none =>
      obtain ⟨hid, hvalues, -⟩ := addValue_of_new hv
      have hv : s.values.toList.idxOf? v = none := by simpa [intern, indexOf?] using hv
      rw [hid, intern, indexOf?, hvalues, idxOf?_push hv, apply_ite (Option.map Handle.ofNat)]
      rfl

theorem insert_of_idxOf? {q : Quad} {i : Nat} (hq : s.quads.toList.idxOf? q = some i)
    (issued : ∀ d h, q.at d = some h → h.toNat < s.values.size) :
    s.insert q issued = (QuadId.ofNat i, s) := by
  unfold insert
  split <;> simp_all

theorem insert_of_new {q : Quad} (hq : s.quads.toList.idxOf? q = none)
    (issued : ∀ d h, q.at d = some h → h.toNat < s.values.size) :
    (s.insert q issued).1 = QuadId.ofNat s.quads.size ∧
      (s.insert q issued).2.values = s.values ∧
      (s.insert q issued).2.quads = s.quads.push q := by
  unfold insert
  split <;> simp_all

/-- One store continues another. -/
structure Extends (s s' : MemoryStore) : Prop where
  values : s.values.toList <+: s'.values.toList
  quads : s.quads.toList <+: s'.quads.toList

namespace Extends

theorem refl (s : MemoryStore) : Extends s s :=
  ⟨List.prefix_refl _, List.prefix_refl _⟩

theorem trans (h : Extends s s') (h' : Extends s' s'') : Extends s s'' :=
  ⟨h.values.trans h'.values, h.quads.trans h'.quads⟩

theorem resolve (h : Extends s s') {x : Handle} {v : Value} (hx : s.resolve x = some v) :
    s'.resolve x = some v :=
  getElem?_of_prefix h.values hx

theorem intern (h : Extends s s') {x : Handle} {v : Value} (hv : s.intern v = some x) :
    s'.intern v = some x := by
  obtain ⟨i, hi, rfl⟩ := intern_eq_some_iff.1 hv
  exact intern_eq_some_iff.2 ⟨i, getElem?_of_prefix h.values hi, rfl⟩

theorem quad (h : Extends s s') {id : QuadId} {q : Quad} (hq : s.quad id = some q) :
    s'.quad id = some q :=
  getElem?_of_prefix h.quads hq

end Extends

theorem extends_addValue (s : MemoryStore) (v : Value) : Extends s (s.addValue v).2 := by
  cases hv : s.intern v with
  | some h => rw [addValue_of_intern hv]; exact .refl s
  | none =>
      obtain ⟨-, hvalues, hquads⟩ := addValue_of_new hv
      exact ⟨by simp [hvalues], by simp [hquads]⟩

theorem extends_addLabel (s : MemoryStore) (v : Option Value) : Extends s (s.addLabel v).2 := by
  cases v with
  | none => exact .refl s
  | some v => exact extends_addValue s v

theorem extends_insert (s : MemoryStore) (q : Quad)
    (issued : ∀ d h, q.at d = some h → h.toNat < s.values.size) :
    Extends s (s.insert q issued).2 := by
  cases hq : s.quads.toList.idxOf? q with
  | some i => rw [insert_of_idxOf? hq]; exact .refl s
  | none =>
      obtain ⟨-, hvalues, hquads⟩ := insert_of_new hq issued
      exact ⟨by simp [hvalues], by simp [hquads]⟩

theorem extends_addQuad (s : MemoryStore) (subject predicate object : Value)
    (label : Option Value) : Extends s (s.addQuad subject predicate object label).2 := by
  have hvalues := (extends_addValue s subject).trans <| (extends_addValue _ predicate).trans <|
    (extends_addValue _ object).trans <| extends_addLabel _ label
  refine hvalues.trans ?_
  unfold addQuad
  apply extends_insert

/-! ## What additions bring -/

theorem mem_values_addValue {u v : Value} :
    u ∈ (s.addValue v).2.values.toList ↔ u ∈ s.values.toList ∨ u = v := by
  cases hv : s.intern v with
  | some h =>
      rw [addValue_of_intern hv]
      refine ⟨.inl, ?_⟩
      rintro (hu | rfl)
      · exact hu
      · exact isSome_intern.1 (by rw [hv]; rfl)
  | none => simp [(addValue_of_new hv).2.1]

theorem mem_values_addLabel {u : Value} {v : Option Value} :
    u ∈ (s.addLabel v).2.values.toList ↔ u ∈ s.values.toList ∨ u ∈ v.toList := by
  cases v with
  | none => simp [addLabel]
  | some v => simpa [addLabel] using mem_values_addValue

theorem values_insert (s : MemoryStore) (q : Quad)
    (issued : ∀ d h, q.at d = some h → h.toNat < s.values.size) :
    (s.insert q issued).2.values = s.values := by
  cases hq : s.quads.toList.idxOf? q with
  | some i => rw [insert_of_idxOf? hq]
  | none => exact (insert_of_new hq issued).2.1

theorem mem_values_addQuad {u subject predicate object : Value} {label : Option Value} :
    u ∈ (s.addQuad subject predicate object label).2.values.toList ↔
      u ∈ s.values.toList ∨ u ∈ subject :: predicate :: object :: label.toList := by
  simp only [addQuad, values_insert, mem_values_addLabel, mem_values_addValue, List.mem_cons,
    or_assoc]

end MemoryStore

end GraphQuery
