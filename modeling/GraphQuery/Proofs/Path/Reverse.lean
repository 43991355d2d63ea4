import GraphQuery.Path.Reverse

/-!
# What the reverse of a path holds

The reverse holds the operations of the path, each the other way round, the label contexts of the
path and lifted ones. Where there are no label contexts it is the operations in opposite order.
-/

namespace GraphQuery

namespace Path

theorem mem_scopedOps {ops : List Op} {scope : Scope} {x : Op × Scope}
    (hx : x ∈ scopedOps scope ops) :
    x.1 ∈ ops ∧ ∀ via names, x.2 = some (via, names) →
      scope = some (via, names) ∨ .labelContext via names ∈ ops := by
  induction ops generalizing scope with
  | nil => simp [scopedOps] at hx
  | cons op ops ih =>
      unfold scopedOps at hx
      split at hx
      · obtain ⟨hop, hscope⟩ := ih hx
        refine ⟨List.mem_cons_of_mem _ hop, fun via names h => ?_⟩
        exact .inr (List.mem_cons_of_mem _ ((hscope via names h).resolve_left (by simp)))
      · obtain ⟨hop, hscope⟩ := ih hx
        refine ⟨List.mem_cons_of_mem _ hop, fun via names h => .inr ?_⟩
        rcases hscope via names h with heq | hmem
        · obtain ⟨rfl, rfl⟩ := Prod.mk.inj (Option.some.inj heq)
          exact List.mem_cons_self ..
        · exact List.mem_cons_of_mem _ hmem
      · rcases List.mem_cons.1 hx with rfl | hx
        · refine ⟨List.mem_cons_self .., fun via names h => .inl ?_⟩
          dsimp only at h
          split at h
          · exact h
          · simp at h
        · obtain ⟨hop, hscope⟩ := ih hx
          exact ⟨List.mem_cons_of_mem _ hop, fun via names h =>
            (hscope via names h).imp_right (List.mem_cons_of_mem _)⟩

theorem mem_unscoped {xs : List (Op × Scope)} {active : Bool} {op : Op}
    (h : op ∈ unscoped active xs) :
    op ∈ xs.map Prod.fst ∨ op = .labelContext .all [] ∨
      ∃ x ∈ xs, ∃ via names, x.2 = some (via, names) ∧ op = .labelContext via names := by
  induction xs generalizing active with
  | nil => simp [unscoped] at h
  | cons x xs ih =>
      obtain ⟨o, scope⟩ := x
      have hrest : ∀ {active}, op ∈ unscoped active xs →
          op ∈ ((o, scope) :: xs).map Prod.fst ∨ op = .labelContext .all [] ∨
            ∃ x ∈ (o, scope) :: xs, ∃ via names,
              x.2 = some (via, names) ∧ op = .labelContext via names := by
        intro active h
        rcases ih h with h | h | ⟨x, hx, h⟩
        · exact .inl (List.mem_cons_of_mem _ h)
        · exact .inr (.inl h)
        · exact .inr (.inr ⟨x, List.mem_cons_of_mem _ hx, h⟩)
      cases scope with
      | some context =>
          rcases List.mem_cons.1 h with rfl | h
          · exact .inr (.inr ⟨_, List.mem_cons_self .., _, _, rfl, rfl⟩)
          · rcases List.mem_cons.1 h with rfl | h
            · exact .inl (List.mem_cons_self ..)
            · exact hrest h
      | none =>
          unfold unscoped at h
          split at h
          · rcases List.mem_cons.1 h with rfl | h
            · exact .inr (.inl rfl)
            · rcases List.mem_cons.1 h with rfl | h
              · exact .inl (List.mem_cons_self ..)
              · exact hrest h
          · rcases List.mem_cons.1 h with rfl | h
            · exact .inl (List.mem_cons_self ..)
            · exact hrest h

/-! ## From the start on -/

def opsFromRoot (p : Path) : List Op :=
  match p.root with
  | .values seeds => .is seeds :: p.ops
  | .all | .morphism => p.ops

variable {p : Path}

theorem forall_mem_opsFromRoot {P : Op → Prop} (his : ∀ seeds, P (.is seeds))
    (h : ∀ op ∈ p.ops, P op) : ∀ op ∈ p.opsFromRoot, P op := by
  unfold opsFromRoot
  cases p.root with
  | values seeds => exact List.forall_mem_cons.2 ⟨his seeds, h⟩
  | all | morphism => exact h

theorem inScopes_eq (p : Path) : p.inScopes = scopedOps none p.opsFromRoot := by
  unfold inScopes opsFromRoot
  cases p.root <;> rfl

def turned (p : Path) : List (Op × Scope) :=
  p.inScopes.reverse.map fun x => (x.1.reversed, x.2)

theorem reverse_eq (p : Path) : p.reverse = .mk .morphism (unscoped false p.turned) :=
  rfl

theorem forall_mem_turned {P : Op × Scope → Prop} (h : ∀ x ∈ p.inScopes, P (x.1.reversed, x.2)) :
    ∀ x ∈ p.turned, P x := by
  intro x hx
  obtain ⟨y, hy, rfl⟩ := List.mem_map.1 hx
  exact h y (List.mem_reverse.1 hy)

theorem mem_ops_reverse {op : Op} (h : op ∈ p.reverse.ops) :
    (∃ seeds, op = .is seeds) ∨ op = .labelContext .all [] ∨ op ∈ p.ops ∨
      ∃ o ∈ p.ops, op = o.reversed := by
  have hroot : ∀ o ∈ p.opsFromRoot, (∃ seeds, o = .is seeds) ∨ o ∈ p.ops :=
    forall_mem_opsFromRoot (fun seeds => .inl ⟨seeds, rfl⟩) fun o => .inr
  have hmem : ∀ x ∈ p.inScopes, x.1 ∈ p.opsFromRoot ∧ ∀ via names, x.2 = some (via, names) →
      .labelContext via names ∈ p.opsFromRoot := by
    intro x hx
    rw [inScopes_eq] at hx
    obtain ⟨hop, hscope⟩ := mem_scopedOps hx
    exact ⟨hop, fun via names heq => (hscope via names heq).resolve_left (by simp)⟩
  rcases mem_unscoped h with h | h | ⟨x, hx, via, names, hscope, rfl⟩
  · obtain ⟨x, hx, rfl⟩ := List.mem_map.1 h
    revert x
    refine forall_mem_turned fun y hy _ _ => ?_
    rcases hroot y.1 (hmem y hy).1 with ⟨seeds, heq⟩ | hop
    · exact .inl ⟨seeds, congrArg Op.reversed heq⟩
    · exact .inr (.inr (.inr ⟨y.1, hop, rfl⟩))
  · exact .inr (.inl h)
  · have hlabel : .labelContext via names ∈ p.opsFromRoot := by
      revert hscope x
      refine forall_mem_turned fun y hy => ?_
      exact (hmem y hy).2 via names
    exact .inr (.inr (.inl ((hroot _ hlabel).resolve_left (by simp))))

/-! ## Without label contexts -/

theorem scopedOps_of_unlabelled {ops : List Op}
    (h : ∀ via names, .labelContext via names ∉ ops) :
    scopedOps none ops = ops.map (·, none) := by
  induction ops with
  | nil => rfl
  | cons op ops ih =>
      have hrest := ih fun via names hm => h via names (List.mem_cons_of_mem _ hm)
      unfold scopedOps
      split
      · exact (h _ _ (List.mem_cons_self ..)).elim
      · exact (h _ _ (List.mem_cons_self ..)).elim
      · rw [hrest, List.map_cons]
        simp

theorem unscoped_unlabelled (ops : List Op) : unscoped false (ops.map (·, none)) = ops := by
  induction ops with
  | nil => rfl
  | cons op ops ih => simp [unscoped, ih]

/-- Without label contexts, the reverse is the operations in opposite order. -/
theorem reverse_of_unlabelled (h : ∀ via names, .labelContext via names ∉ p.ops) :
    p.reverse = .mk .morphism (p.opsFromRoot.reverse.map Op.reversed) := by
  have hroot : ∀ op ∈ p.opsFromRoot, ∀ via names, op ≠ .labelContext via names :=
    forall_mem_opsFromRoot (by simp) fun op hop via names heq => h via names (heq ▸ hop)
  have hscopes : p.inScopes = p.opsFromRoot.map (·, none) := by
    rw [inScopes_eq, scopedOps_of_unlabelled fun via names hmem => hroot _ hmem via names rfl]
  have hturned : p.turned = (p.opsFromRoot.reverse.map Op.reversed).map (·, none) := by
    rw [turned, hscopes, ← List.map_reverse, List.map_map, List.map_map]
    rfl
  rw [reverse_eq, hturned, unscoped_unlabelled]

end Path

end GraphQuery
