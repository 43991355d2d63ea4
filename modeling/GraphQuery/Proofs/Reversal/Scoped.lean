import GraphQuery.Proofs.Reversal.Labels

/-!
# Reversing more than once

What a path comes to is the list of its operations in their scopes. The reverse has this list in
opposite order, each operation the other way round and in the same scope. So reversing twice gives
the list back, and reversing three times gives the operations of the first reverse, label contexts
included: only the way in which the scopes are written down changes, and only once.
-/

namespace GraphQuery

namespace Op

/-- The label context that the operation puts in force; one that lifts the others is one too. -/
def context? : Op → Option (Via × List String)
  | .labelContext via tags => some (via, tags)
  | _ => none

theorem context?_eq_none_iff {op : Op} :
    op.context? = none ↔ ∀ via tags, op ≠ .labelContext via tags := by
  cases op <;> simp [context?]

end Op

namespace Path

variable {p : Path}

/-- What governs a step after these operations: the last label context among them, unless that one
lifts the others. -/
def inForce (before : List Op) : Scope :=
  match (before.filterMap Op.context?).getLast? with
  | some (.all, _) => none
  | last => last

/-- The operations other than label contexts, each step with what the operations before it put in
force. -/
def scopedList (ops : List Op) : List (Op × Scope) :=
  ((ops.inits.zip ops).filter fun x => x.2.context?.isNone).map fun x =>
    (x.2, if x.2.isStep then inForce x.1 else none)

/-- What the start stands for among the operations. -/
def seedList (p : Path) : List (Op × Scope) :=
  match p.root with
  | .values seeds => [(.is seeds, none)]
  | .all | .morphism => []

/-! ## One pass over the operations -/

theorem inForce_append_labelContext (before : List Op) (via : Via) (tags : List String) :
    inForce (before ++ [.labelContext via tags]) =
      match via with
      | .all => none
      | via => some (via, tags) := by
  cases via <;> simp [inForce, Op.context?]

theorem inForce_append_of_ne {op : Op} (hop : ∀ via tags, op ≠ .labelContext via tags)
    (before : List Op) : inForce (before ++ [op]) = inForce before := by
  simp [inForce, Op.context?_eq_none_iff.2 hop]

/-- The scope that a single pass carries along is what the operations passed have put in force. -/
theorem scopedOps_inForce (before ops : List Op) :
    scopedOps (inForce before) ops =
      (((ops.inits.map (before ++ ·)).zip ops).filter fun x => x.2.context?.isNone).map fun x =>
        (x.2, if x.2.isStep then inForce x.1 else none) := by
  induction ops generalizing before with
  | nil => rfl
  | cons op ops ih =>
      have hinits : (op :: ops).inits.map (before ++ ·) =
          before :: ops.inits.map ((before ++ [op]) ++ ·) := by
        simp [Function.comp_def]
      rw [hinits, List.zip_cons_cons]
      by_cases hop : ∀ via tags, op ≠ .labelContext via tags
      · rw [scopedOps_of_ne hop, ← inForce_append_of_ne hop before, ih,
          List.filter_cons_of_pos (by simp [Op.context?_eq_none_iff.2 hop]), List.map_cons,
          inForce_append_of_ne hop before]
      · push Not at hop
        obtain ⟨via, tags, rfl⟩ := hop
        have hscope : scopedOps (inForce before) (.labelContext via tags :: ops) =
            scopedOps (inForce (before ++ [.labelContext via tags])) ops := by
          rw [inForce_append_labelContext]
          cases via <;> rfl
        rw [hscope, ih, List.filter_cons_of_neg (by simp [Op.context?])]

theorem scopedOps_eq_scopedList (ops : List Op) : scopedOps none ops = scopedList ops := by
  have h := scopedOps_inForce [] ops
  simpa [inForce, scopedList] using h

theorem inScopes_eq_seedList_append (p : Path) : p.inScopes = p.seedList ++ scopedList p.ops := by
  rw [← scopedOps_eq_scopedList]
  unfold inScopes seedList
  cases p.root <;> rfl

/-! ## Scopes written down and read again -/

/-- An operation in a scope that can be written down: no label context, and no scope but that of a
label context that governs a step. -/
structure Scoped (x : Op × Scope) : Prop where
  ne_labelContext : ∀ via tags, x.1 ≠ .labelContext via tags
  isStep : ∀ context, x.2 = some context → x.1.isStep = true
  ne_all : ∀ tags, x.2 ≠ some (.all, tags)

theorem Scoped.reversed {x : Op × Scope} (h : Scoped x) : Scoped (x.1.reversed, x.2) where
  ne_labelContext via tags heq :=
    h.ne_labelContext via tags (x.1.reversed_reversed.symm.trans (congrArg Op.reversed heq))
  isStep context hcontext := by
    rw [Op.isStep_reversed]
    exact h.isStep context hcontext
  ne_all := h.ne_all

/-- What is read in scopes can be written down. -/
theorem scoped_of_mem_scopedOps {ops : List Op} {scope : Scope} {x : Op × Scope}
    (hscope : ∀ tags, scope ≠ some (.all, tags)) (hx : x ∈ scopedOps scope ops) : Scoped x := by
  induction ops generalizing scope with
  | nil => simp [scopedOps] at hx
  | cons op ops ih =>
      unfold scopedOps at hx
      split at hx
      next => exact ih (by simp) hx
      next via tags hvia =>
        exact ih (fun _ heq => hvia (congrArg Prod.fst (Option.some.inj heq))) hx
      next hne hlabel =>
        rcases List.mem_cons.1 hx with rfl | hx
        · refine ⟨fun via tags => hlabel via tags, fun context h => ?_, fun tags h => ?_⟩
          · by_contra hstep
            simp [hstep] at h
          · exact hscope tags (by simpa using (Option.ite_none_right_eq_some.1 h).2)
        · exact ih hscope hx

/-- Reading what was written down gives it back. The pass starts with no scope, or after a step
whose label context is still to be lifted. -/
theorem scopedOps_unscoped {xs : List (Op × Scope)} {active : Bool} {scope : Scope}
    (hxs : ∀ x ∈ xs, Scoped x) (hscope : active = false → scope = none) :
    scopedOps scope (unscoped active xs) = xs := by
  induction xs generalizing active scope with
  | nil => rfl
  | cons x xs ih =>
      obtain ⟨op, context⟩ := x
      obtain ⟨hx, hrest⟩ := List.forall_mem_cons.1 hxs
      have hop := scopedOps_of_ne hx.ne_labelContext
      cases context with
      | some context =>
          obtain ⟨via, tags⟩ := context
          have hstep := hx.isStep _ rfl
          have hread : scopedOps scope (.labelContext via tags :: op :: unscoped true xs) =
              scopedOps (some (via, tags)) (op :: unscoped true xs) := by
            cases via with
            | all => exact (hx.ne_all tags rfl).elim
            | values | path => rfl
          rw [unscoped, hread, hop, ih hrest (by simp), if_pos hstep]
      | none =>
          rw [unscoped]
          split
          next hlift =>
            have hread : scopedOps scope (.labelContext .all [] :: op :: unscoped false xs) =
                scopedOps none (op :: unscoped false xs) := rfl
            rw [hread, hop, ih hrest (fun _ => rfl), ite_self]
          next hkeep =>
            have hnone : (if op.isStep then scope else none) = none := by
              cases active with
              | false => rw [hscope rfl, ite_self]
              | true => rw [if_neg (by simpa using hkeep)]
            rw [hop, ih hrest hscope, hnone]

/-! ## Reversing once, twice and three times -/

theorem scoped_turned (p : Path) : ∀ x ∈ p.turned, Scoped x := by
  refine forall_mem_turned fun x hx => Scoped.reversed ?_
  rw [inScopes_eq] at hx
  exact scoped_of_mem_scopedOps (by simp) hx

theorem inScopes_reverse (p : Path) : p.reverse.inScopes = p.turned :=
  scopedOps_unscoped p.scoped_turned fun _ => rfl

theorem turned_reverse (p : Path) : p.reverse.turned = p.inScopes := by
  rw [turned, inScopes_reverse, turned, ← List.map_reverse, List.reverse_reverse, List.map_map]
  simp [Function.comp_def]

theorem scopedList_reverse (p : Path) : scopedList p.reverse.ops = p.turned := by
  rw [← inScopes_reverse, inScopes_eq_seedList_append]
  rfl

theorem reverse_reverse_reverse (p : Path) : p.reverse.reverse.reverse = p.reverse := by
  have hscopes : p.reverse.reverse.inScopes = p.inScopes := by
    rw [inScopes_reverse, turned_reverse]
  rw [reverse_eq p.reverse.reverse, turned, hscopes]
  rfl

/-- Reversal puts the operations in their scopes in opposite order, that for the start included, and
turns each round; a second reversal gives them back, and a third one the operations of the first. -/
theorem scopedList_reverse_involutive (p : Path) :
    scopedList p.reverse.ops =
        (p.seedList ++ scopedList p.ops).reverse.map (fun x => (x.1.reversed, x.2)) ∧
      scopedList p.reverse.reverse.ops = p.seedList ++ scopedList p.ops ∧
      p.reverse.reverse.reverse.ops = p.reverse.ops := by
  refine ⟨?_, ?_, ?_⟩
  · rw [scopedList_reverse, turned, inScopes_eq_seedList_append]
  · rw [scopedList_reverse, turned_reverse, inScopes_eq_seedList_append]
  · rw [reverse_reverse_reverse]

/-- Reversing twice drops the label contexts that govern no step. -/
example (via : Via) (tags : List String) :
    (Path.mk .morphism [.labelContext (.values []) [], .labelContext .all [], .outgoing via tags,
      .labelContext (.values []) []]).reverse.reverse.ops = [.outgoing via tags] :=
  rfl

end Path

end GraphQuery
