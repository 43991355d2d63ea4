import GraphQuery.Proofs.Feed.Listing
import GraphQuery.Proofs.Optimize.Rules

/-!
# The order within a family

Values of one family are related by a partial order, in which NaNs are related to nothing, the two
zeros are equal and an integer is equal to the double nearest to it. The total order decides between
equals and places what is not related, but it reverses nothing: a list in total order has no pair
that the partial order puts the other way round.
-/

namespace GraphQuery

namespace Binary64

variable {x y : Binary64}

/-- The two keys differ by one on the negative side, and by nothing on the other. -/
theorem totalKey_lt_of_realKey (h : x.realKey < y.realKey) : x.totalKey < y.totalKey := by
  unfold realKey at h
  unfold totalKey
  cases hx : x.isNegative <;> cases hy : y.isNegative <;>
    simp only [hx, hy, if_true, Bool.false_eq_true, if_false] at h ⊢ <;> omega

theorem totalCompare_of_compare? {o : Ordering} (h : x.compare? y = some o) (ho : o ≠ .eq) :
    x.totalCompare y = o := by
  unfold compare? at h
  split at h
  · cases h
  · obtain rfl : compare x.realKey y.realKey = o := Option.some.inj h
    rcases Int.lt_trichotomy x.realKey y.realKey with hlt | heq | hgt
    · rw [compare_lt_iff_lt.2 hlt]
      exact compare_lt_iff_lt.2 (totalKey_lt_of_realKey hlt)
    · exact absurd (compare_eq_iff_eq.2 heq) ho
    · rw [compare_gt_iff_gt.2 hgt]
      exact compare_gt_iff_gt.2 (totalKey_lt_of_realKey hgt)

theorem compare?_swap (x y : Binary64) : y.compare? x = (x.compare? y).map Ordering.swap := by
  unfold compare?
  rw [Bool.or_comm]
  split
  · rfl
  · exact congrArg some Std.OrientedCmp.eq_swap

end Binary64

namespace Value

variable {a b : Value} {o : Ordering}

instance : Std.LawfulEqCmp totalCompare where
  compare_self := Std.ReflCmp.compare_self
  eq_of_compare := eq_of_totalCompare

/-! ## The total order on a family -/

theorem rank_eq_of_compare? (h : a.compare? b = some o) : a.rank = b.rank := by
  cases a <;> cases b <;> first | rfl | cases h

/-- Where one value is before the other in its family, it is so in the total order. -/
theorem totalCompare_of_compare? (h : a.compare? b = some o) (ho : o ≠ .eq) :
    a.totalCompare b = o := by
  have hrank : compare a.rank b.rank = .eq := compare_eq_iff_eq.2 (rank_eq_of_compare? h)
  have hthen {p q : Ordering} (hp : p = o) : p.then q = o := by
    subst hp
    cases p <;> first | rfl | exact absurd rfl ho
  unfold totalCompare
  rw [hrank, Ordering.eq_then]
  -- Numbers of both kinds and texts with a language or a datatype have comparisons of their own.
  cases a <;> cases b <;> simp only [compare?, Option.some.injEq, reduceCtorEq] at h
  case int.float n x => exact hthen (Binary64.totalCompare_of_compare? h ho)
  case float.int x n => exact hthen (Binary64.totalCompare_of_compare? h ho)
  case float.float x y => exact Binary64.totalCompare_of_compare? h ho
  case lang.lang s l s' l' =>
    split at h
    · exact hthen (Option.some.inj h)
    · cases h
  case typed.typed s d s' d' =>
    split at h
    · exact hthen (Option.some.inj h)
    · cases h
  all_goals exact h

/-- Related either way, with the converse ordering. -/
theorem compare?_swap (a b : Value) : b.compare? a = (a.compare? b).map Ordering.swap := by
  have hif {p q : Prop} [Decidable p] [Decidable q] (hpq : q ↔ p) (s s' : String) :
      (if q then some (compare s' s) else none) =
        (if p then some (compare s s') else none).map Ordering.swap := by
    by_cases h : p
    · rw [if_pos h, if_pos (hpq.2 h)]
      exact congrArg some Std.OrientedCmp.eq_swap
    · rw [if_neg h, if_neg fun hq => h (hpq.1 hq)]
      rfl
  cases a <;> cases b <;> first
    | rfl
    | exact congrArg some Std.OrientedCmp.eq_swap
    | exact Binary64.compare?_swap _ _
    | exact hif eq_comm _ _
    | skip
  case time.time t u =>
    refine congrArg some ?_
    show (compare u.seconds t.seconds).then (compare u.nanos t.nanos) = _
    rw [Instant.compare, Ordering.swap_then, ← Std.OrientedCmp.eq_swap, ← Std.OrientedCmp.eq_swap]

/-! ## Lists in total order -/

/-- A pair that the order within the family puts the other way round. -/
def Inverted (v w : Value) : Prop :=
  v.compare? w = some .gt ∨ w.compare? v = some .lt

theorem not_inverted (h : (a.totalCompare b).isLE) : ¬a.Inverted b := by
  have hgt : a.compare? b ≠ some .gt := fun hc => by
    rw [totalCompare_of_compare? hc (by decide)] at h
    cases h
  rintro (hc | hc)
  · exact hgt hc
  · exact hgt (by rw [compare?_swap b a, hc]; rfl)

theorem pairwise_sort (vs : List Value) :
    (sort vs).Pairwise fun v w => (v.totalCompare w).isLE := by
  have hle : sort vs = ascending vs := by
    unfold sort ascending
    congr 1
    funext v w
    cases v.totalCompare w <;> rfl
  rw [hle]
  exact pairwise_ascending vs

/-- The total order is a linear order in which equal means identical. It extends the order within
each family, so what is sorted by it has no inverted pair. -/
theorem totalCompare_linear (a b c : Value) (vs : List Value) :
    b.totalCompare a = (a.totalCompare b).swap ∧
      ((a.totalCompare b).isLE → (b.totalCompare a).isLE → a = b) ∧
      ((a.totalCompare b).isLE → (b.totalCompare c).isLE → (a.totalCompare c).isLE) ∧
      ((a.totalCompare b).isLE ∨ (b.totalCompare a).isLE) ∧
      (a.totalCompare b = .eq ↔ a = b) ∧
      (a.compare? b = some .lt → a.totalCompare b = .lt) ∧
      (a.compare? b = some .gt → a.totalCompare b = .gt) ∧
      ((vs.Pairwise fun v w => (v.totalCompare w).isLE) →
        vs.Pairwise fun v w => ¬v.Inverted w) ∧
      (sort vs).Perm vs ∧ ((sort vs).Pairwise fun v w => ¬v.Inverted w) := by
  refine ⟨Std.OrientedCmp.eq_swap, isLE_antisymm, isLE_trans, ?_, ?_, ?_, ?_, ?_, ?_, ?_⟩
  · simpa using isLE_total a b
  · exact ⟨eq_of_totalCompare, fun h => h ▸ Std.ReflCmp.compare_self⟩
  · exact fun h => totalCompare_of_compare? h (by decide)
  · exact fun h => totalCompare_of_compare? h (by decide)
  · exact fun h => h.imp not_inverted
  · exact List.mergeSort_perm vs _
  · exact (pairwise_sort vs).imp not_inverted

/-- An integer past the precision of doubles, the double nearest to it and the integer below, which
is nearest to the same double. -/
theorem totalCompare_linear_rounded :
    (Value.int 9007199254740992).compare? (.float ⟨0x4340000000000000⟩) = some .eq ∧
      ((Value.int 9007199254740992).totalCompare (.float ⟨0x4340000000000000⟩)).isLE ∧
      [Value.int 9007199254740992, .int 9007199254740993, .float ⟨0x4340000000000000⟩].Pairwise
        fun v w => ¬v.Inverted w := by
  have h := totalCompare_linear (.int 9007199254740992) (.int 9007199254740993)
    (.float ⟨0x4340000000000000⟩)
    [.int 9007199254740992, .int 9007199254740993, .float ⟨0x4340000000000000⟩]
  obtain ⟨-, -, htrans, -, -, -, -, hlist, -, -⟩ := h
  exact ⟨by decide +kernel, htrans (by decide +kernel) (by decide +kernel),
    hlist (by decide +kernel)⟩

end Value

/-! ## Sorted rows -/

namespace Feed

theorem vet_of_mem_drain {vet : Handle → Option QueryError} {F : Feed} {r : Row}
    (hr : r ∈ (F.drain vet).rows) : vet r.handle = none := by
  induction F with
  | done => cases hr
  | failed e => cases hr
  | row h sets rest ih =>
      unfold drain at hr
      cases hv : vet h with
      | some e => simp [hv] at hr
      | none =>
          simp only [hv, List.mem_cons] at hr
          rcases hr with rfl | hr
          · exact hv
          · exact ih _ hr

/-- No two rows that a sorted feed delivers have inverted values. -/
theorem pairwise_sorted (F : Feed) (store : QuadStore) :
    (F.sorted store).delivered.rows.Pairwise fun r q =>
      ¬(Table.valueAt store r).Inverted (Table.valueAt store q) := by
  unfold sorted
  split
  · exact .nil
  · have hvalue : ∀ r ∈ (F.drain store.vet).rows, (store.resolve r.handle).isSome := by
      intro r hr
      have hv := vet_of_mem_drain hr
      unfold QuadStore.vet at hv
      split at hv
      · assumption
      · cases hv
    rw [Table.mergeSort_notAfter hvalue, delivered_ofRows]
    refine (List.pairwise_mergeSort ?_ ?_ _).imp Value.not_inverted
    · exact fun r q s hrq hqs => Value.isLE_trans hrq hqs
    · exact fun r q => Value.isLE_total _ _

end Feed

end GraphQuery
