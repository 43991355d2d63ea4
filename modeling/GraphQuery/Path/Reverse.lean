import GraphQuery.Path

/-!
# Reversing paths

The reverse of a path has its operations in opposite order and each the other way round. A label
context governs the steps after it; in the reverse it is put before each of the steps it governed.
-/

namespace GraphQuery

/-- The label context that governs a step, if any. -/
abbrev Scope : Type :=
  Option (Via × List String)

namespace Path

/-- The operations other than label contexts, each step with the label context that governs it. -/
def scopedOps : Scope → List Op → List (Op × Scope)
  | _, [] => []
  | scope, op :: ops =>
      match op with
      | .labelContext .all _ => scopedOps none ops
      | .labelContext via tags => scopedOps (some (via, tags)) ops
      | op => (op, if op.isStep then scope else none) :: scopedOps scope ops

/-- The operations in their scopes; starting from values is taken for keeping these values. -/
def inScopes (p : Path) : List (Op × Scope) :=
  match p.root with
  | .values seeds => (.is seeds, none) :: scopedOps none p.ops
  | _ => scopedOps none p.ops

/-- Operations that put each step into its scope. `active` tells that the last label context has not
been lifted. -/
def unscoped : Bool → List (Op × Scope) → List Op
  | _, [] => []
  | _, (op, some (via, tags)) :: rest => .labelContext via tags :: op :: unscoped true rest
  | active, (op, none) :: rest =>
      if active && op.isStep then .labelContext .all [] :: op :: unscoped false rest
      else op :: unscoped active rest

/-- The same traversal walked backwards, as a morphism. -/
def reverse (p : Path) : Path :=
  .mk .morphism (unscoped false (p.inScopes.reverse.map fun (op, scope) => (op.reversed, scope)))

/-! ## Reversal does not nest more deeply -/

def scopeDepth : Scope → Nat
  | none => 0
  | some (via, _) => via.depth

theorem depth_reversed (op : Op) : op.reversed.depth = op.depth := by
  cases op <;> simp [Op.reversed, Op.depth]

theorem depth_scopedOps {n : Nat} : ∀ {ops : List Op} {scope : Scope},
    (∀ op ∈ ops, op.depth ≤ n) → scopeDepth scope ≤ n →
    ∀ x ∈ scopedOps scope ops, x.1.depth ≤ n ∧ scopeDepth x.2 ≤ n
  | [], _, _, _, x, hx => by simp [scopedOps] at hx
  | op :: ops, scope, ho, hs, x, hx => by
      have ho' : ∀ o ∈ ops, o.depth ≤ n := fun o h => ho o (List.mem_cons_of_mem _ h)
      have hop := ho op (List.mem_cons_self ..)
      unfold scopedOps at hx
      split at hx
      · exact depth_scopedOps ho' (Nat.zero_le _) x hx
      · exact depth_scopedOps ho' (by simpa [scopeDepth, Op.depth] using hop) x hx
      · rcases List.mem_cons.1 hx with rfl | hx
        · refine ⟨hop, ?_⟩
          dsimp only
          split
          · exact hs
          · exact Nat.zero_le _
        · exact depth_scopedOps ho' hs x hx

theorem depth_unscoped {n : Nat} : ∀ {active : Bool} {xs : List (Op × Scope)},
    (∀ x ∈ xs, x.1.depth ≤ n ∧ scopeDepth x.2 ≤ n) → ∀ op ∈ unscoped active xs, op.depth ≤ n
  | _, [], _, op, ho => by simp [unscoped] at ho
  | active, (o, some (via, tags)) :: rest, hx, op, ho => by
      have h := hx (o, some (via, tags)) (List.mem_cons_self ..)
      simp only [unscoped, List.mem_cons] at ho
      rcases ho with rfl | rfl | ho
      · simpa [Op.depth, scopeDepth] using h.2
      · exact h.1
      · exact depth_unscoped (fun x hm => hx x (List.mem_cons_of_mem _ hm)) op ho
  | active, (o, none) :: rest, hx, op, ho => by
      have h := hx (o, none) (List.mem_cons_self ..)
      have hr : ∀ x ∈ rest, x.1.depth ≤ n ∧ scopeDepth x.2 ≤ n :=
        fun x hm => hx x (List.mem_cons_of_mem _ hm)
      unfold unscoped at ho
      split at ho
      · simp only [List.mem_cons] at ho
        rcases ho with rfl | rfl | ho
        · simp [Op.depth, Via.depth]
        · exact h.1
        · exact depth_unscoped hr op ho
      · rcases List.mem_cons.1 ho with rfl | ho
        · exact h.1
        · exact depth_unscoped hr op ho

theorem depth_reverse_le (p : Path) : p.reverse.depth ≤ p.depth := by
  obtain ⟨root, ops⟩ := p
  have hs : ∀ x ∈ (Path.mk root ops).inScopes, x.1.depth ≤ depthOfOps ops ∧
      scopeDepth x.2 ≤ depthOfOps ops := by
    intro x hx
    have hx' : x ∈ scopedOps none ops ∨ ∃ vs, x = (Op.is vs, none) := by
      unfold inScopes at hx
      split at hx
      · rcases List.mem_cons.1 hx with rfl | hx
        · exact .inr ⟨_, rfl⟩
        · exact .inl hx
      · exact .inl hx
    rcases hx' with hx | ⟨vs, rfl⟩
    · exact depth_scopedOps (fun op ho => depth_le_of_mem ho) (Nat.zero_le _) x hx
    · simp [Op.depth, scopeDepth]
  unfold reverse Path.depth
  refine Nat.add_le_add_left (depthOfOps_le fun op ho => ?_) 1
  refine depth_unscoped (fun x hx => ?_) op ho
  obtain ⟨y, hy, rfl⟩ := List.mem_map.1 hx
  rw [List.mem_reverse] at hy
  exact ⟨by simpa [depth_reversed] using (hs y hy).1, (hs y hy).2⟩

end Path

end GraphQuery
