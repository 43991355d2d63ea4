import GraphQuery.Proofs.Meaning
import GraphQuery.Proofs.Path.Within

/-!
# Filling the hole

A plan may be put into the hole of a morphism. Its meaning is then that of the morphism with the
meaning of the plan in the hole. The plan of a path that is applied to the hole, filled, is the plan
of the path applied to what fills it.
-/

namespace GraphQuery

namespace Plan

mutual

/-- Puts a plan into the hole. The hole of a morphism inside is another one. -/
def fill : Plan → (q : Plan) → Plan
  | .input, q => q
  | .fixed handles, _ => .fixed handles
  | .null, _ => .null
  | .all, _ => .all
  | .and operands primary, q => .and (fillAll operands q) primary
  | .or operands, q => .or (fillAll operands q)
  | .not forbidden whole, q => .not (fill forbidden q) (fill whole q)
  | .unique p, q => .unique (fill p q)
  | .save p names, q => .save (fill p q) names
  | .limit p n, q => .limit (fill p q) n
  | .skip p n, q => .skip (fill p q) n
  | .sort p, q => .sort (fill p q)
  | .step source fromEnd toEnd via names labels, q =>
      .step (fill source q) fromEnd toEnd (fillOption via q) names (fillOption labels q)
  | .filter p test, q => .filter (fill p q) test
  | .map p f, q => .map (fill p q) f
  | .constraint p cs, q => .constraint (fill p q) cs
  | .recursive p morphism maxDepth depthNames bindings, q =>
      .recursive (fill p q) morphism maxDepth depthNames bindings

def fillAll : List Plan → (q : Plan) → List Plan
  | [], _ => []
  | p :: ps, q => fill p q :: fillAll ps q

def fillOption : Option Plan → (q : Plan) → Option Plan
  | none, _ => none
  | some p, q => some (fill p q)

end

theorem length_fillAll (ps : List Plan) (q : Plan) : (fillAll ps q).length = ps.length := by
  induction ps with
  | nil => rfl
  | cons p ps ih => rw [fillAll, List.length_cons, ih, List.length_cons]

mutual

/-- What is put into the hole stands in it. -/
theorem meaningOn_fill (store : QuadStore) (H : Meaning) (q : Plan) :
    ∀ p : Plan, (p.fill q).meaningOn store H = p.meaningOn store (q.meaningOn store H)
  | .input | .fixed _ | .null | .all => rfl
  | .and operands primary => by
      have hdriver : driver (fillAll operands q) primary = driver operands primary := by
        rw [driver, driver, length_fillAll]
      simp only [fill, meaningOn, meaningOfAll_fill store H q operands, hdriver]
  | .or operands => by simp only [fill, meaningOn, meaningOfAll_fill store H q operands]
  | .not forbidden whole => by
      simp only [fill, meaningOn, meaningOn_fill store H q forbidden,
        meaningOn_fill store H q whole]
  | .unique p | .save p _ | .limit p _ | .skip p _ | .sort p | .filter p _ | .map p _
  | .constraint p _ | .recursive p _ _ _ _ => by
      simp only [fill, meaningOn, meaningOn_fill store H q p]
  | .step source _ _ via _ labels => by
      simp only [fill, meaningOn, meaningOn_fill store H q source,
        meaningOfOption_fill store H q via, meaningOfOption_fill store H q labels]

theorem meaningOfAll_fill (store : QuadStore) (H : Meaning) (q : Plan) :
    ∀ ps : List Plan,
      meaningOfAll store H (fillAll ps q) = meaningOfAll store (q.meaningOn store H) ps
  | [] => rfl
  | p :: ps => by
      simp only [fillAll, meaningOfAll, meaningOn_fill store H q p, meaningOfAll_fill store H q ps]

theorem meaningOfOption_fill (store : QuadStore) (H : Meaning) (q : Plan) :
    ∀ p : Option Plan,
      meaningOfOption store H (fillOption p q) = meaningOfOption store (q.meaningOn store H) p
  | none => rfl
  | some p => by simp only [fillOption, meaningOfOption, meaningOn_fill store H q p]

end

end Plan

namespace Path

variable {target : Target} {ctx : LabelContext} {q : Plan}

def Solid (q : Plan) (ctx : LabelContext) : Prop :=
  Plan.fillOption ctx.labels q = ctx.labels

theorem fillOption_demand (hctx : Solid q ctx) : Plan.fillOption ctx.demand q = ctx.demand := by
  obtain ⟨labels, names⟩ := ctx
  cases labels with
  | none => rfl
  | some p =>
      have hp : p.fill q = p := Option.some.inj hctx
      show Plan.fillOption (some (if names.isEmpty then p else .save p names)) q =
        some (if names.isEmpty then p else .save p names)
      split
      · exact congrArg some hp
      · exact congrArg some (congrArg (Plan.save · names) hp)

/-- Filling the plan of the path is applying the path to what has been filled. -/
def Fills (target : Target) (q : Plan) (p : Path) : Prop :=
  ∀ (ctx : LabelContext) (input : Option Plan), Solid q ctx →
    (build target ctx input p).fill q = build target ctx (Plan.fillOption input q) p

theorem fillOption_restriction {via : Via}
    (hb : ∀ p : Path, p.depth ≤ via.depth → Fills target q p) (hctx : Solid q ctx) :
    Plan.fillOption (restriction target ctx via) q = restriction target ctx via := by
  cases via with
  | all =>
      rw [restriction]
      rfl
  | values values =>
      rw [restriction]
      rfl
  | path p =>
      rw [restriction]
      exact congrArg some (hb p (Nat.le_refl _) ctx none hctx)

theorem fill_lower {op : Op} (hb : ∀ p : Path, p.depth ≤ op.depth → Fills target q p)
    (hctx : Solid q ctx) (p : Plan) :
    (lower target ctx p op).1.fill q = (lower target ctx (p.fill q) op).1 ∧
      (lower target ctx p op).2 = (lower target ctx (p.fill q) op).2 ∧
        Solid q (lower target ctx p op).2 := by
  have hdemand := fillOption_demand hctx
  have hvia : ∀ via : Via, via.depth = op.depth →
      Plan.fillOption (restriction target ctx via) q = restriction target ctx via :=
    fun via hd => fillOption_restriction (hd ▸ hb) hctx
  have hother : ∀ r : Path, r.depth = op.depth →
      (build target ctx none r).fill q = build target ctx none r :=
    fun r hd => hb r (Nat.le_of_eq hd) ctx none hctx
  have hvalues : ∀ values : List Value,
      (Plan.ofValues target.store values).fill q = .ofValues target.store values := fun _ => rfl
  rw [lower.eq_def, lower.eq_def]
  cases op with
  | is values => exact ⟨by simp only [Plan.fill, Plan.fillAll, hvalues], rfl, hctx⟩
  | outgoing via _ | incoming via _ | both via _ =>
      exact ⟨by simp only [Plan.fill, Plan.fillAll, hvia via rfl, hdemand], rfl, hctx⟩
  | and other | or other | except other =>
      exact ⟨by simp only [Plan.fill, Plan.fillAll, hother other rfl], rfl, hctx⟩
  | has via values reverse =>
      have hends : (if values.isEmpty then Plan.all else .ofValues target.store values).fill q =
          if values.isEmpty then Plan.all else .ofValues target.store values := by
        split <;> rfl
      refine ⟨?_, rfl, hctx⟩
      cases reverse with
      | true => simp only [if_true, Plan.fill, Plan.fillAll, hvia via rfl, hdemand, hends]
      | false =>
          simp only [Bool.false_eq_true, if_false, Plan.fill, Plan.fillAll, hvia via rfl, hdemand,
            hends]
  | follow morphism reverse =>
      cases reverse with
      | true => exact ⟨hb _ (depth_reverse_le morphism) ctx (some p) hctx, rfl, hctx⟩
      | false => exact ⟨hb _ (Nat.le_refl _) ctx (some p) hctx, rfl, hctx⟩
  | followRecursive | unique | limit | skip | order | tag | constrain | filter | map | labels =>
      exact ⟨rfl, rfl, hctx⟩
  | labelContext via _ => exact ⟨rfl, rfl, hvia via rfl⟩
  | inPredicates | outPredicates =>
      exact ⟨by simp only [predicatesPlan, Plan.fill, Plan.fillOption, hdemand], rfl, hctx⟩

theorem fill_buildOps {ops : List Op}
    (hb : ∀ p : Path, p.depth ≤ depthOfOps ops → Fills target q p) (hctx : Solid q ctx) (p : Plan) :
    (buildOps target ctx p ops).fill q = buildOps target ctx (p.fill q) ops := by
  induction ops generalizing ctx p with
  | nil => rw [buildOps, buildOps]
  | cons op ops ih =>
      have hop : ∀ r : Path, r.depth ≤ op.depth → Fills target q r := fun r hr =>
        hb r (Nat.le_trans hr (Nat.le_max_left ..))
      have hops : ∀ r : Path, r.depth ≤ depthOfOps ops → Fills target q r := fun r hr =>
        hb r (Nat.le_trans hr (Nat.le_max_right ..))
      obtain ⟨hplan, hnext, hsolid⟩ := fill_lower hop hctx p
      rw [buildOps, buildOps]
      dsimp only
      rw [ih hops hsolid, hplan, hnext]

theorem fill_build (target : Target) (q : Plan) (p : Path) : Fills target q p := by
  induction p using depth_induction with
  | step root ops ih =>
      intro ctx input hctx
      rw [build.eq_def, build.eq_def]
      dsimp only
      rw [fill_buildOps ih hctx]
      cases root with
      | values seeds => cases input <;> rfl
      | all | morphism => cases input <;> rfl

end Path

end GraphQuery
