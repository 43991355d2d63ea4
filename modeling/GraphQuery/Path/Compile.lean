import GraphQuery.Path.Reverse

/-!
# Compiling paths

Lowers a path to a plan over a store. The label context changes as operations are lowered; a path
held by an operation starts from a copy of it, and its changes stay with it.
-/

namespace GraphQuery

/-- The restriction on the labels of quads, and the names bound to them. -/
structure LabelContext where
  labels : Option Plan := none
  tags : List String := []

namespace LabelContext

/-- What a step demands of labels. -/
def demand (ctx : LabelContext) : Option Plan :=
  ctx.labels.map fun p => if ctx.tags.isEmpty then p else .save p ctx.tags

end LabelContext

namespace Path

/-- What lowering needs to know besides the path. -/
structure Target where
  store : QuadStore
  bindings : ClosureBindings

/-- Both ends of the quads at a node, labelled; each label once. -/
def labelsPlan (p : Plan) : Plan :=
  .unique (.or [.step p .subject .label none [] none, .step p .object .label none [] none])

/-- The predicates of the quads with a node at one end. -/
def predicatesPlan (ctx : LabelContext) (p : Plan) (fromEnd : Direction) : Plan :=
  .unique (.step p fromEnd .predicate none [] ctx.demand)

mutual

/-- The plan of a path applied to `input`, or standing on its own. -/
def build (target : Target) (ctx : LabelContext) (input : Option Plan) : Path → Plan
  | .mk root ops =>
      let start := match root, input with
        | .values seeds, none => .ofValues target.store seeds
        | .values seeds, some p => .and [p, .ofValues target.store seeds] 0
        | _, none => .all
        | _, some p => p
      buildOps target ctx start ops
termination_by p => (p.depth, 0)
decreasing_by
  exact Prod.Lex.left _ _ (by simp only [Path.depth]; omega)

def buildOps (target : Target) (ctx : LabelContext) (p : Plan) : List Op → Plan
  | [] => p
  | op :: ops =>
      let (p, ctx) := lower target ctx p op
      buildOps target ctx p ops
termination_by ops => (depthOfOps ops, ops.length + 3)
decreasing_by
  · rcases Nat.lt_or_eq_of_le (Nat.le_max_left op.depth (depthOfOps ops)) with h | h
    · exact Prod.Lex.left _ _ (by simpa only [depthOfOps] using h)
    · rw [depthOfOps, ← h]
      exact Prod.Lex.right _ (by simp only [List.length_cons]; omega)
  · rcases Nat.lt_or_eq_of_le (Nat.le_max_right op.depth (depthOfOps ops)) with h | h
    · exact Prod.Lex.left _ _ (by simpa only [depthOfOps] using h)
    · rw [depthOfOps, ← h]
      exact Prod.Lex.right _ (by simp only [List.length_cons]; omega)

/-- The plan after one operation, and the label context for the next. -/
def lower (target : Target) (ctx : LabelContext) (p : Plan) (op : Op) : Plan × LabelContext :=
  match _h : op with
  | .is values => (.and [p, .ofValues target.store values] 0, ctx)
  | .outgoing via tags =>
      (.step p .subject .object (restriction target ctx via) tags ctx.demand, ctx)
  | .incoming via tags =>
      (.step p .object .subject (restriction target ctx via) tags ctx.demand, ctx)
  | .both via tags =>
      let via := restriction target ctx via
      (.or [.step p .subject .object via tags ctx.demand,
        .step p .object .subject via tags ctx.demand], ctx)
  | .and other => (.and [p, build target ctx none other] 0, ctx)
  | .or other => (.or [p, build target ctx none other], ctx)
  | .except other => (.and [p, .not (build target ctx none other) .all] 0, ctx)
  | .has via values reverse =>
      let ends := if values.isEmpty then .all else .ofValues target.store values
      let via := restriction target ctx via
      let found :=
        if reverse then .step ends .subject .object via [] ctx.demand
        else .step ends .object .subject via [] ctx.demand
      (.and [p, found] 0, ctx)
  | .follow morphism reverse =>
      if reverse then (build target ctx (some p) morphism.reverse, ctx)
      else (build target ctx (some p) morphism, ctx)
  | .followRecursive morphism maxDepth depthTags =>
      (.recursive p (build target ctx (some .input) morphism) maxDepth depthTags target.bindings,
        ctx)
  | .unique => (.unique p, ctx)
  | .limit n => (.limit p n, ctx)
  | .skip n => (.skip p n, ctx)
  | .order => (.sort p, ctx)
  | .tag tags => (.save p tags, ctx)
  | .labelContext via tags =>
      let labels := restriction target ctx via
      (p, ⟨labels, if labels.isSome then tags else []⟩)
  | .constrain c => (.constraint p [c], ctx)
  | .filter test => (.filter p test, ctx)
  | .map f => (.map p f, ctx)
  | .inPredicates => (predicatesPlan ctx p .object, ctx)
  | .outPredicates => (predicatesPlan ctx p .subject, ctx)
  | .labels => (labelsPlan p, ctx)
termination_by (op.depth, 2)
decreasing_by
  all_goals subst _h
  all_goals simp only [Op.depth]
  all_goals first
    | exact Prod.Lex.right _ (by omega)
    | skip
  rcases Nat.lt_or_eq_of_le (depth_reverse_le morphism) with h | h
  · exact Prod.Lex.left _ _ h
  · rw [h]
    exact Prod.Lex.right _ (by omega)

/-- The plan of a restriction; `none` if there is none. -/
def restriction (target : Target) (ctx : LabelContext) (via : Via) : Option Plan :=
  match via with
  | .all => none
  | .values values => some (.ofValues target.store values)
  | .path p => some (build target ctx none p)
termination_by (via.depth, 1)
decreasing_by
  simp only [Via.depth]
  exact Prod.Lex.right _ (by omega)

end

/-- The plan of a path over a store. -/
def compile (p : Path) (store : QuadStore) (bindings : ClosureBindings) : Plan :=
  p.build ⟨store, bindings⟩ {} none

end Path

end GraphQuery
