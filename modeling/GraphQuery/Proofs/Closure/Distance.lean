import GraphQuery.Handle

/-!
# Distances

How far a handle is from a set of starts, in steps of a relation. A start has no distance from
itself unless steps lead back to it: only what is reached in at least one step has a distance.
-/

namespace GraphQuery

/-- `y` is reached from `x` in exactly so many steps. -/
def ReachedIn (R : Handle → Handle → Prop) : Nat → Handle → Handle → Prop
  | 0, x, y => x = y
  | k + 1, x, y => ∃ z, ReachedIn R k x z ∧ R z y

/-- `k` is the least number of steps, one or more, in which `y` is reached from a start. -/
structure Distance (R : Handle → Handle → Prop) (start : Handle → Prop) (y : Handle) (k : Nat) :
    Prop where
  pos : 1 ≤ k
  reached : ∃ x, start x ∧ ReachedIn R k x y
  least : ∀ j, 1 ≤ j → j < k → ¬ ∃ x, start x ∧ ReachedIn R j x y

namespace Distance

variable {R : Handle → Handle → Prop} {start : Handle → Prop} {x y : Handle} {j k : Nat}

theorem unique (hj : Distance R start y j) (hk : Distance R start y k) : j = k := by
  rcases Nat.lt_trichotomy j k with hlt | heq | hgt
  · exact (hk.least j hj.pos hlt hj.reached).elim
  · exact heq
  · exact (hj.least k hk.pos hgt hk.reached).elim

theorem exists_le (hk : 1 ≤ k) (hx : start x) (hr : ReachedIn R k x y) :
    ∃ j, j ≤ k ∧ Distance R start y j := by
  induction k using Nat.strongRecOn generalizing x with
  | ind k ih =>
      by_cases hcloser : ∃ j, 1 ≤ j ∧ j < k ∧ ∃ x, start x ∧ ReachedIn R j x y
      · obtain ⟨j, hj, hlt, z, hz, hzy⟩ := hcloser
        obtain ⟨i, hi, hd⟩ := ih j hlt hj hz hzy
        exact ⟨i, by omega, hd⟩
      · exact ⟨k, Nat.le_refl k, hk, ⟨x, hx, hr⟩,
          fun j hj hlt hreached => hcloser ⟨j, hj, hlt, hreached⟩⟩

/-- The last step but one of a shortest way is itself the end of a shortest way. -/
theorem exists_prior (hk : 1 ≤ k) (hy : Distance R start y (k + 1)) :
    ∃ z, Distance R start z k ∧ R z y := by
  obtain ⟨x, hx, z, hxz, hzy⟩ := hy.reached
  obtain ⟨j, hj, hz⟩ := exists_le hk hx hxz
  obtain ⟨x', hx', hr⟩ := hz.reached
  rcases Nat.lt_or_eq_of_le hj with hlt | rfl
  · exact (hy.least (j + 1) (by omega) (by omega) ⟨x', hx', z, hr, hzy⟩).elim
  · exact ⟨z, hz, hzy⟩

/-- On the way to anything far away there is something at each lesser distance. -/
theorem exists_at (hj : 1 ≤ j) (hle : j ≤ k) (hy : Distance R start y k) :
    ∃ z, Distance R start z j := by
  induction k generalizing y with
  | zero => omega
  | succ k ih =>
      rcases Nat.lt_or_eq_of_le hle with hlt | rfl
      · obtain ⟨z, hz, -⟩ := hy.exists_prior (by omega)
        exact ih (by omega) hz
      · exact ⟨y, hy⟩

end Distance

end GraphQuery
