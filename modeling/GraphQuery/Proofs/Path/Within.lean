import GraphQuery.Path.Compile
import GraphQuery.Proofs.Allowance
import GraphQuery.Proofs.Path.Reverse

/-!
# What paths may hold

Allowances for paths. Reversal moves operations around and makes no new ones, so it keeps a path
within an allowance; and the plan of a path holds what the path holds.
-/

namespace GraphQuery

mutual

def Via.Within (A : Allowance) : Via → Prop
  | .all | .values _ => True
  | .path p => p.Within A

def Op.Within (A : Allowance) : Op → Prop
  | .outgoing via _ | .incoming via _ | .both via _ => via.Within A
  | .has via _ _ | .labelContext via _ => via.Within A
  | .and p | .or p | .except p | .follow p _ | .followRecursive p _ _ => p.Within A
  | .limit n => A.limit n
  | .filter test => A.test test
  | .map f => A.map f
  | _ => True

def Path.Within (A : Allowance) : Path → Prop
  | .mk _ ops => Path.OpsWithin A ops

def Path.OpsWithin (A : Allowance) : List Op → Prop
  | [] => True
  | op :: ops => op.Within A ∧ Path.OpsWithin A ops

end

mutual

theorem Path.Within.mono {A B : Allowance} (hAB : A.Le B) : ∀ p : Path, p.Within A → p.Within B
  | .mk _ ops, hp => Path.OpsWithin.mono hAB ops hp

theorem Path.OpsWithin.mono {A B : Allowance} (hAB : A.Le B) :
    ∀ ops : List Op, Path.OpsWithin A ops → Path.OpsWithin B ops
  | [], _ => trivial
  | op :: ops, ho => ⟨Op.Within.mono hAB op ho.1, Path.OpsWithin.mono hAB ops ho.2⟩

theorem Op.Within.mono {A B : Allowance} (hAB : A.Le B) : ∀ op : Op, op.Within A → op.Within B
  | .outgoing via _, ho | .incoming via _, ho | .both via _, ho | .has via _ _, ho
  | .labelContext via _, ho => Via.Within.mono hAB via ho
  | .and p, ho | .or p, ho | .except p, ho | .follow p _, ho | .followRecursive p _ _, ho =>
      Path.Within.mono hAB p ho
  | .limit n, ho => hAB.limit n ho
  | .filter test, ho => hAB.test test ho
  | .map f, ho => hAB.map f ho
  | .is _, _ | .unique, _ | .skip _, _ | .order, _ | .tag _, _ | .constrain _, _
  | .inPredicates, _ | .outPredicates, _ | .labels, _ => trivial

theorem Via.Within.mono {A B : Allowance} (hAB : A.Le B) : ∀ via : Via, via.Within A → via.Within B
  | .all, _ | .values _, _ => trivial
  | .path p, hv => Path.Within.mono hAB p hv

end

variable {A : Allowance}

namespace Path

theorem opsWithin_append {ops rest : List Op} :
    OpsWithin A (ops ++ rest) ↔ OpsWithin A ops ∧ OpsWithin A rest := by
  induction ops with
  | nil => simp [OpsWithin]
  | cons op ops ih => simp [OpsWithin, ih, and_assoc]

theorem opsWithin_iff {ops : List Op} : OpsWithin A ops ↔ ∀ op ∈ ops, op.Within A := by
  induction ops with
  | nil => simp [OpsWithin]
  | cons op ops ih => simp [OpsWithin, ih]

theorem within_iff {p : Path} : p.Within A ↔ ∀ op ∈ p.ops, op.Within A := by
  cases p with
  | mk root ops => exact opsWithin_iff

/-! ## Reversal -/

def ScopeWithin (A : Allowance) : Scope → Prop
  | none => True
  | some (via, _) => via.Within A

theorem ScopeWithin.mono {B : Allowance} (hAB : A.Le B) {scope : Scope}
    (hscope : ScopeWithin A scope) : ScopeWithin B scope := by
  cases scope with
  | none => trivial
  | some context => exact Via.Within.mono hAB context.1 hscope

theorem within_reversed {op : Op} (ho : op.Within A) : op.reversed.Within A := by
  cases op <;> exact ho

theorem within_reverse {p : Path} (hp : p.Within A) : p.reverse.Within A := by
  refine within_iff.2 fun op hop => ?_
  rcases mem_ops_reverse hop with ⟨seeds, rfl⟩ | rfl | hop | ⟨o, ho, rfl⟩
  · trivial
  · trivial
  · exact within_iff.1 hp op hop
  · exact within_reversed (within_iff.1 hp o ho)

/-! ## Plans of paths -/

/-- A property of paths holds if it holds of a path whenever it holds of the paths in it. -/
theorem depth_induction {P : Path → Prop}
    (step : ∀ root ops, (∀ q : Path, q.depth ≤ depthOfOps ops → P q) → P (.mk root ops))
    (p : Path) : P p := by
  have hbelow : ∀ n, ∀ q : Path, q.depth ≤ n → P q := by
    intro n
    induction n with
    | zero =>
        intro q hq
        cases q with
        | mk root ops => simp [depth] at hq
    | succ n ih =>
        intro q hq
        cases q with
        | mk root ops =>
            have hops : depthOfOps ops ≤ n := by
              rw [depth] at hq
              omega
            exact step root ops fun r hr => ih r (Nat.le_trans hr hops)
  exact hbelow p.depth p (Nat.le_refl _)

variable {target : Target} {ctx : LabelContext}

def Target.Names (target : Target) (A : Allowance) : Prop :=
  ∀ v h, target.store.intern v = some h → A.literal h

theorem within_ofValues (hA : target.Names A) (values : List Value) :
    (Plan.ofValues target.store values).Within A := by
  intro h hh
  obtain ⟨v, -, hv⟩ := List.mem_filterMap.1 (HandleList.mem_toList_ofList.1 hh)
  exact hA v h hv

theorem within_demand (hctx : Plan.WithinOption A ctx.labels) :
    Plan.WithinOption A ctx.demand := by
  unfold LabelContext.demand
  cases hl : ctx.labels with
  | none => trivial
  | some p =>
      rw [hl] at hctx
      show Plan.Within A (if ctx.tags.isEmpty then p else .save p ctx.tags)
      split
      · exact hctx
      · exact hctx

/-- Under whatever label context and applied to whatever plan, the plan of the path holds only what
is allowed. -/
def Builds (target : Target) (A : Allowance) (p : Path) : Prop :=
  p.Within A → ∀ (ctx : LabelContext) (input : Option Plan),
    Plan.WithinOption A ctx.labels → Plan.WithinOption A input →
      (build target ctx input p).Within A

theorem within_restriction (hA : target.Names A) {via : Via}
    (hb : ∀ q : Path, q.depth ≤ via.depth → Builds target A q)
    (hctx : Plan.WithinOption A ctx.labels) (hv : via.Within A) :
    Plan.WithinOption A (restriction target ctx via) := by
  cases via with
  | all =>
      rw [restriction]
      trivial
  | values values =>
      rw [restriction]
      exact within_ofValues hA values
  | path p =>
      rw [restriction]
      exact hb p (Nat.le_refl _) hv ctx none hctx trivial

theorem within_lower (hA : target.Names A) {op : Op}
    (hb : ∀ q : Path, q.depth ≤ op.depth → Builds target A q)
    (hctx : Plan.WithinOption A ctx.labels) {p : Plan} (hp : p.Within A) (ho : op.Within A) :
    (lower target ctx p op).1.Within A ∧ Plan.WithinOption A (lower target ctx p op).2.labels := by
  have hdemand := within_demand hctx
  have hvia : ∀ via : Via, via.depth = op.depth → via.Within A →
      Plan.WithinOption A (restriction target ctx via) := by
    intro via hd hv
    exact within_restriction hA (hd ▸ hb) hctx hv
  have hother : ∀ q : Path, q.depth = op.depth → q.Within A →
      (build target ctx none q).Within A :=
    fun q hd hq => hb q (Nat.le_of_eq hd) hq ctx none hctx trivial
  rw [lower.eq_def]
  cases op with
  | is values => exact ⟨⟨hp, within_ofValues hA values, trivial⟩, hctx⟩
  | outgoing via tags | incoming via tags => exact ⟨⟨hp, hvia via rfl ho, hdemand⟩, hctx⟩
  | both via tags =>
      have hv := hvia via rfl ho
      exact ⟨⟨⟨hp, hv, hdemand⟩, ⟨hp, hv, hdemand⟩, trivial⟩, hctx⟩
  | and other | or other => exact ⟨⟨hp, hother other rfl ho, trivial⟩, hctx⟩
  | except other => exact ⟨⟨hp, ⟨hother other rfl ho, trivial⟩, trivial⟩, hctx⟩
  | has via values reverse =>
      have hends :
          (if values.isEmpty then Plan.all else .ofValues target.store values).Within A := by
        split
        · trivial
        · exact within_ofValues hA values
      have hv := hvia via rfl ho
      refine ⟨⟨hp, ?_, trivial⟩, hctx⟩
      cases reverse with
      | true => exact ⟨hends, hv, hdemand⟩
      | false => exact ⟨hends, hv, hdemand⟩
  | follow morphism reverse =>
      cases reverse with
      | true =>
          exact ⟨hb _ (depth_reverse_le morphism) (within_reverse ho) ctx (some p) hctx hp, hctx⟩
      | false => exact ⟨hb _ (Nat.le_refl _) ho ctx (some p) hctx hp, hctx⟩
  | followRecursive morphism maxDepth depthTags =>
      exact ⟨⟨hp, hb _ (Nat.le_refl _) ho ctx (some .input) hctx trivial⟩, hctx⟩
  | limit n => exact ⟨⟨ho, hp⟩, hctx⟩
  | unique | skip n | order | tag tags | constrain c => exact ⟨hp, hctx⟩
  | labelContext via tags => exact ⟨hp, hvia via rfl ho⟩
  | filter test => exact ⟨⟨ho, hp⟩, hctx⟩
  | map f => exact ⟨⟨ho, hp⟩, hctx⟩
  | inPredicates | outPredicates => exact ⟨⟨hp, trivial, hdemand⟩, hctx⟩
  | labels => exact ⟨⟨⟨hp, trivial, trivial⟩, ⟨hp, trivial, trivial⟩, trivial⟩, hctx⟩

theorem within_buildOps (hA : target.Names A) {ops : List Op}
    (hb : ∀ q : Path, q.depth ≤ depthOfOps ops → Builds target A q)
    (hctx : Plan.WithinOption A ctx.labels) {p : Plan}
    (hp : p.Within A) (ho : OpsWithin A ops) : (buildOps target ctx p ops).Within A := by
  induction ops generalizing ctx p with
  | nil =>
      rw [buildOps]
      exact hp
  | cons op ops ih =>
      have hop : ∀ q : Path, q.depth ≤ op.depth → Builds target A q := fun q hq =>
        hb q (Nat.le_trans hq (Nat.le_max_left ..))
      have hops : ∀ q : Path, q.depth ≤ depthOfOps ops → Builds target A q := fun q hq =>
        hb q (Nat.le_trans hq (Nat.le_max_right ..))
      obtain ⟨hp', hctx'⟩ := within_lower hA hop hctx hp ho.1
      rw [buildOps]
      exact ih hops hctx' hp' ho.2

theorem builds (hA : target.Names A) (p : Path) : Builds target A p := by
  induction p using depth_induction with
  | step root ops ih =>
      intro hp ctx input hctx hinput
      rw [build.eq_def]
      refine within_buildOps hA ih hctx ?_ hp
      cases root with
      | values seeds =>
          cases input with
          | none => exact within_ofValues hA seeds
          | some p => exact ⟨hinput, within_ofValues hA seeds, trivial⟩
      | all | morphism =>
          cases input with
          | none => trivial
          | some p => exact hinput

theorem compile_mk (store : QuadStore) (bindings : ClosureBindings) (root : Root) (ops : List Op) :
    (Path.mk root ops).compile store bindings =
      buildOps ⟨store, bindings⟩ {} ((Path.mk root []).compile store bindings) ops := by
  simp only [compile]
  rw [build.eq_def, build.eq_def]
  dsimp only
  rw [buildOps.eq_1]

/-- The plan of a path holds only what the path holds. -/
theorem within_compile {store : QuadStore} (hA : ∀ v h, store.intern v = some h → A.literal h)
    {p : Path} (hp : p.Within A) (bindings : ClosureBindings) :
    (p.compile store bindings).Within A := by
  have hA : Target.Names ⟨store, bindings⟩ A := hA
  exact builds hA p hp {} none trivial trivial

end Path

end GraphQuery
