import GraphQuery.Proofs.Names.Plan
import GraphQuery.Proofs.Path.Reverse
import GraphQuery.Proofs.Path.Within

/-!
# The names that paths bind

The plan of a path holds the names that the path mentions and those of the label context that it
starts under.
-/

namespace GraphQuery

mutual

def Via.names : Via → List String
  | .all | .values _ => []
  | .path p => p.names

def Op.names : Op → List String
  | .outgoing via own | .incoming via own | .both via own | .labelContext via own =>
      via.names ++ own
  | .has via _ _ => via.names
  | .and p | .or p | .except p | .follow p _ => p.names
  | .followRecursive p _ own => p.names ++ own
  | .tag own => own
  | _ => []

def Path.names : Path → List String
  | .mk _ ops => Path.namesOfOps ops

def Path.namesOfOps : List Op → List String
  | [] => []
  | op :: ops => op.names ++ Path.namesOfOps ops

end

namespace Path

variable {ok : String → Prop}

theorem namesOfOps_iff {ops : List Op} :
    (∀ n ∈ namesOfOps ops, ok n) ↔ ∀ op ∈ ops, ∀ n ∈ op.names, ok n := by
  induction ops with
  | nil => simp [namesOfOps]
  | cons op ops ih => simp [namesOfOps, ih, or_imp, forall_and]

theorem names_iff {p : Path} : (∀ n ∈ p.names, ok n) ↔ ∀ op ∈ p.ops, ∀ n ∈ op.names, ok n := by
  cases p with
  | mk root ops => exact namesOfOps_iff

theorem names_reversed (op : Op) : op.reversed.names = op.names := by
  cases op <;> rfl

theorem names_reverse {p : Path} (hn : ∀ n ∈ p.names, ok n) : ∀ n ∈ p.reverse.names, ok n := by
  refine names_iff.2 fun op hop => ?_
  rcases mem_ops_reverse hop with ⟨seeds, rfl⟩ | rfl | hop | ⟨o, ho, rfl⟩
  · simp [Op.names]
  · simp [Op.names, Via.names]
  · exact names_iff.1 hn op hop
  · rw [names_reversed]
    exact names_iff.1 hn o ho

/-! ## Plans of paths -/

variable {target : Target} {ctx : LabelContext}

structure ContextBinds (ok : String → Prop) (ctx : LabelContext) : Prop where
  labels : ∀ n ∈ Plan.namesOfOption ctx.labels, ok n
  tags : ∀ n ∈ ctx.tags, ok n

theorem contextBinds_empty : ContextBinds ok {} :=
  ⟨by simp [Plan.namesOfOption], by simp⟩

theorem ContextBinds.demand (hctx : ContextBinds ok ctx) :
    ∀ n ∈ Plan.namesOfOption ctx.demand, ok n := by
  obtain ⟨labels, own⟩ := ctx
  cases labels with
  | none => simp [LabelContext.demand, Plan.namesOfOption]
  | some p =>
      show ∀ n ∈ (if own.isEmpty then p else .save p own).names, ok n
      split
      · exact hctx.labels
      · exact List.forall_mem_append.2 ⟨hctx.labels, hctx.tags⟩

/-- Under whatever label context and applied to whatever plan, the plan of the path holds accepted
names only if these do. -/
def NamesBuilt (target : Target) (ok : String → Prop) (p : Path) : Prop :=
  (∀ n ∈ p.names, ok n) → ∀ (ctx : LabelContext) (input : Option Plan),
    ContextBinds ok ctx → (∀ n ∈ Plan.namesOfOption input, ok n) →
      ∀ n ∈ (build target ctx input p).names, ok n

theorem names_restriction {via : Via}
    (hb : ∀ q : Path, q.depth ≤ via.depth → NamesBuilt target ok q) (hctx : ContextBinds ok ctx)
    (hn : ∀ n ∈ via.names, ok n) :
    ∀ n ∈ Plan.namesOfOption (restriction target ctx via), ok n := by
  cases via with
  | all =>
      rw [restriction]
      simp [Plan.namesOfOption]
  | values values =>
      rw [restriction]
      simp [Plan.namesOfOption, Plan.names_ofValues]
  | path p =>
      rw [restriction]
      exact hb p (Nat.le_refl _) hn ctx none hctx (by simp [Plan.namesOfOption])

theorem names_lower {op : Op} (hb : ∀ q : Path, q.depth ≤ op.depth → NamesBuilt target ok q)
    (hctx : ContextBinds ok ctx) {p : Plan} (hp : ∀ n ∈ p.names, ok n)
    (hn : ∀ n ∈ op.names, ok n) :
    (∀ n ∈ (lower target ctx p op).1.names, ok n) ∧
      ContextBinds ok (lower target ctx p op).2 := by
  have hvia : ∀ via : Via, via.depth = op.depth → (∀ n ∈ via.names, ok n) →
      ∀ n ∈ Plan.namesOfOption (restriction target ctx via), ok n :=
    fun via hd => names_restriction (hd ▸ hb) hctx
  have hother : ∀ q : Path, q.depth = op.depth → (∀ n ∈ q.names, ok n) →
      ∀ n ∈ (build target ctx none q).names, ok n :=
    fun q hd hq => hb q (Nat.le_of_eq hd) hq ctx none hctx (by simp [Plan.namesOfOption])
  have hstep : ∀ {source : Plan} {fromEnd toEnd : Direction} {via : Via} {own : List String},
      (∀ n ∈ source.names, ok n) → via.depth = op.depth → (∀ n ∈ via.names ++ own, ok n) →
      ∀ n ∈ (Plan.step source fromEnd toEnd (restriction target ctx via) own ctx.demand).names,
        ok n := by
    intro source fromEnd toEnd via own hsource hd hn
    obtain ⟨hv, hown⟩ := List.forall_mem_append.1 hn
    exact Plan.names_step_iff.2 ⟨hsource, hvia via hd hv, hown, hctx.demand⟩
  have hpair : ∀ {q r : Plan}, (∀ n ∈ q.names, ok n) → (∀ n ∈ r.names, ok n) →
      ∀ n ∈ Plan.namesOfAll [q, r], ok n := fun hq hr => Plan.namesOfAll_pair_iff.2 ⟨hq, hr⟩
  have hvalues : ∀ values : List Value, ∀ n ∈ (Plan.ofValues target.store values).names, ok n := by
    simp [Plan.names_ofValues]
  rw [lower.eq_def]
  cases op with
  | is values => exact ⟨hpair hp (hvalues values), hctx⟩
  | outgoing via own | incoming via own => exact ⟨hstep hp rfl hn, hctx⟩
  | both via own => exact ⟨hpair (hstep hp rfl hn) (hstep hp rfl hn), hctx⟩
  | and other => exact ⟨hpair hp (hother other rfl hn), hctx⟩
  | or other => exact ⟨hpair hp (hother other rfl hn), hctx⟩
  | except other =>
      refine ⟨hpair hp ?_, hctx⟩
      simpa [Plan.names] using hother other rfl hn
  | has via values reverse =>
      have hends : ∀ n ∈ (if values.isEmpty then Plan.all else
          .ofValues target.store values).names, ok n := by
        split
        · simp [Plan.names]
        · exact hvalues values
      have hv : ∀ n ∈ via.names ++ [], ok n := by simpa [Op.names] using hn
      refine ⟨hpair hp ?_, hctx⟩
      cases reverse with
      | true => exact hstep hends rfl hv
      | false => exact hstep hends rfl hv
  | follow morphism reverse =>
      cases reverse with
      | true =>
          exact ⟨hb _ (depth_reverse_le morphism) (names_reverse hn) ctx (some p) hctx hp, hctx⟩
      | false => exact ⟨hb _ (Nat.le_refl _) hn ctx (some p) hctx hp, hctx⟩
  | followRecursive morphism maxDepth own =>
      exact ⟨List.forall_mem_append.2 ⟨hp, (List.forall_mem_append.1 hn).2⟩, hctx⟩
  | tag own => exact ⟨List.forall_mem_append.2 ⟨hp, hn⟩, hctx⟩
  | labelContext via own =>
      obtain ⟨hv, hown⟩ := List.forall_mem_append.1 hn
      refine ⟨hp, hvia via rfl hv, ?_⟩
      show ∀ n ∈ (if (restriction target ctx via).isSome then own else []), ok n
      split
      · exact hown
      · simp
  | inPredicates | outPredicates =>
      refine ⟨?_, hctx⟩
      simp only [predicatesPlan, Plan.names, Plan.namesOfOption, List.append_nil,
        List.forall_mem_append]
      exact ⟨hp, hctx.demand⟩
  | labels =>
      refine ⟨?_, hctx⟩
      simpa [labelsPlan, Plan.names, Plan.namesOfAll, Plan.namesOfOption] using hp
  | unique | limit | skip | order | constrain | filter | map => exact ⟨hp, hctx⟩

theorem names_buildOps {ops : List Op}
    (hb : ∀ q : Path, q.depth ≤ depthOfOps ops → NamesBuilt target ok q)
    (hctx : ContextBinds ok ctx) {p : Plan} (hp : ∀ n ∈ p.names, ok n)
    (hn : ∀ n ∈ namesOfOps ops, ok n) : ∀ n ∈ (buildOps target ctx p ops).names, ok n := by
  induction ops generalizing ctx p with
  | nil =>
      rw [buildOps]
      exact hp
  | cons op ops ih =>
      have hop : ∀ q : Path, q.depth ≤ op.depth → NamesBuilt target ok q := fun q hq =>
        hb q (Nat.le_trans hq (Nat.le_max_left ..))
      have hops : ∀ q : Path, q.depth ≤ depthOfOps ops → NamesBuilt target ok q := fun q hq =>
        hb q (Nat.le_trans hq (Nat.le_max_right ..))
      obtain ⟨hown, hrest⟩ := List.forall_mem_append.1 hn
      obtain ⟨hp', hctx'⟩ := names_lower hop hctx hp hown
      rw [buildOps]
      exact ih hops hctx' hp' hrest

/-- The plan of a path holds the names that the path mentions, and no others but those that it
starts with. -/
theorem namesBuilt (p : Path) : NamesBuilt target ok p := by
  induction p using depth_induction with
  | step root ops ih =>
      intro hn ctx input hctx hinput
      rw [build.eq_def]
      refine names_buildOps ih hctx ?_ hn
      cases root with
      | values seeds =>
          cases input with
          | none => simp [Plan.ofValues, Plan.names]
          | some p =>
              simpa [Plan.names, Plan.namesOfAll, Plan.ofValues, Plan.namesOfOption] using hinput
      | all | morphism =>
          cases input with
          | none => simp [Plan.names]
          | some p => exact hinput

end Path

end GraphQuery
