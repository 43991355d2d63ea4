import GraphQuery.Proofs.Path.Compiled
import GraphQuery.Proofs.Path.Kinds

/-!
# Itineraries

The operations that a path takes one after the other, those of the paths that it follows in their
place, each with the label context that governs it. Where no label contexts are put in force, the
reverse of a path takes them in opposite order and each the other way round.
-/

namespace GraphQuery

/-! ## Legs -/

/-- The label context at an operation: still that of the caller, or one that the path has put in
force itself, or has lifted. -/
inductive Governing where
  | caller
  | own (scope : LabelScope)

namespace Governing

def after : Governing → Op → Governing
  | _, .labelContext via names => .own (LabelScope.after none (.labelContext via names))
  | g, _ => g

def context (store : QuadStore) (caller : LabelContext) : Governing → LabelContext
  | .caller => caller
  | .own scope => scope.context store

theorem after_of_ne {op : Op} (hop : ∀ via names, op ≠ .labelContext via names) (g : Governing) :
    g.after op = g := by
  cases op with
  | labelContext via names => exact (hop via names rfl).elim
  | _ => rfl

end Governing

def Op.isGoverned : Op → Bool
  | .outgoing _ _ | .incoming _ _ | .both _ _ | .has _ _ _ | .and _ | .or _ | .except _
  | .followRecursive _ _ _ | .inPredicates | .outPredicates => true
  | _ => false

/-- An operation that is neither a label context nor goes on with another path, and what governs
it. -/
structure Leg where
  op : Op
  governing : Governing

namespace Leg

def of (g : Governing) (op : Op) : Leg :=
  ⟨op, if op.isGoverned then g else .own none⟩

def reversed (l : Leg) : Leg :=
  { l with op := l.op.reversed }

@[simp] theorem reversed_reversed (l : Leg) : l.reversed.reversed = l := by
  simp [reversed]

def back (ls : List Leg) : List Leg :=
  ls.reverse.map reversed

@[simp] theorem back_back (ls : List Leg) : back (back ls) = ls := by
  simp [back, Function.comp_def]

theorem back_flatMap {α : Type} (xs : List α) (f : α → List Leg) :
    back (xs.flatMap f) = xs.reverse.flatMap fun x => back (f x) := by
  simp [back, List.reverse_flatMap, List.map_flatMap, Function.comp_def]

end Leg

namespace Path

mutual

def itinerary (g : Governing) : Path → List Leg
  | .mk root ops =>
      let start := match root with
        | .values seeds => [Leg.of g (.is seeds)]
        | .all | .morphism => []
      start ++ itineraryOfOps g ops
termination_by p => (p.depth, 0)
decreasing_by
  exact Prod.Lex.left _ _ (by simp only [Path.depth]; omega)

def itineraryOfOps (g : Governing) : List Op → List Leg
  | [] => []
  | op :: ops => legs g op ++ itineraryOfOps (g.after op) ops
termination_by ops => (depthOfOps ops, ops.length + 3)
decreasing_by
  · rcases Nat.lt_or_eq_of_le (Nat.le_max_left op.depth (depthOfOps ops)) with h | h
    · exact Prod.Lex.left _ _ (by simpa only [depthOfOps] using h)
    · rw [depthOfOps, ← h]
      exact Prod.Lex.right _ (by simp only [List.length_cons]; omega)
  · rcases Nat.lt_or_eq_of_le (Nat.le_max_right op.depth (depthOfOps ops)) with h | h
    · exact Prod.Lex.left _ _ (by simpa only [depthOfOps] using h)
    · rw [depthOfOps, ← h]
      exact Prod.Lex.right _ (by simp only [List.length_cons]; omega)

def legs (g : Governing) (op : Op) : List Leg :=
  match _h : op with
  | .follow morphism reverse =>
      if reverse then itinerary g morphism.reverse else itinerary g morphism
  | .labelContext _ _ => []
  | op => [.of g op]
termination_by (op.depth, 2)
decreasing_by
  all_goals subst _h
  all_goals simp only [Op.depth]
  · rcases Nat.lt_or_eq_of_le (depth_reverse_le morphism) with h | h
    · exact Prod.Lex.left _ _ h
    · rw [h]
      exact Prod.Lex.right _ (by omega)
  · exact Prod.Lex.right _ (by omega)

end

theorem itinerary_eq (g : Governing) (p : Path) :
    p.itinerary g = itineraryOfOps g p.opsFromRoot := by
  obtain ⟨root, ops⟩ := p
  rw [itinerary.eq_def]
  cases root with
  | values seeds =>
      rw [opsFromRoot]
      dsimp only [Path.root, Path.ops]
      rw [itineraryOfOps, legs]
      · rfl
      all_goals simp
  | all | morphism => rfl

/-! ## The itinerary of the reverse -/

variable {g g' : Governing} {p : Path}

theorem itineraryOfOps_of_unlabelled {ops : List Op}
    (h : ∀ via names, .labelContext via names ∉ ops) :
    itineraryOfOps g ops = ops.flatMap (legs g) := by
  induction ops with
  | nil => rw [itineraryOfOps, List.flatMap_nil]
  | cons op ops ih =>
      have hop : ∀ via names, op ≠ .labelContext via names := by
        rintro via names rfl
        exact h via names (List.mem_cons_self ..)
      rw [itineraryOfOps, g.after_of_ne hop,
        ih fun via names hm => h via names (List.mem_cons_of_mem _ hm), List.flatMap_cons]

/-- The legs of a reversed operation, if those of the path that it goes on with are known. -/
theorem legs_reversed {op : Op} (h : ∀ q reverse, op = .follow q reverse →
    q.reverse.itinerary g = Leg.back (q.itinerary g)) :
    legs g op.reversed = Leg.back (legs g op) := by
  cases op with
  | follow q reverse =>
      have hq := h q reverse rfl
      cases reverse with
      | false => simp [Op.reversed, legs, hq]
      | true => simp [Op.reversed, legs, hq]
  | _ => simp [Op.reversed, legs, Leg.back, Leg.reversed, Leg.of, Op.isGoverned]

/-- Where the path itself puts no label contexts in force, its reverse takes the same legs back, if
the reverses of the paths that it follows do. -/
theorem itinerary_reverse_of_follows (hlabel : ∀ via names, .labelContext via names ∉ p.ops)
    (hfollow : ∀ q reverse, .follow q reverse ∈ p.ops →
      q.reverse.itinerary g = Leg.back (q.itinerary g)) :
    p.reverse.itinerary g = Leg.back (p.itinerary g) := by
  have hops : ∀ op ∈ p.opsFromRoot, (∀ via names, op ≠ .labelContext via names) ∧
      legs g op.reversed = Leg.back (legs g op) := by
    refine forall_mem_opsFromRoot (fun seeds => ⟨by simp, legs_reversed (by simp)⟩) fun op hop => ?_
    refine ⟨fun via names heq => hlabel via names (heq ▸ hop), legs_reversed ?_⟩
    exact fun q reverse heq => hfollow q reverse (heq ▸ hop)
  have hback : ∀ via names, .labelContext via names ∉
      p.opsFromRoot.reverse.map Op.reversed := by
    intro via names hmem
    obtain ⟨op, hop, heq⟩ := List.mem_map.1 hmem
    refine (hops op (List.mem_reverse.1 hop)).1 via names ?_
    rw [← Op.reversed_reversed op, heq]
    rfl
  rw [reverse_of_unlabelled hlabel, itinerary_eq g p,
    itineraryOfOps_of_unlabelled fun via names hmem => (hops _ hmem).1 via names rfl,
    itinerary_eq, Leg.back_flatMap]
  refine (itineraryOfOps_of_unlabelled hback).trans ?_
  rw [List.flatMap_map]
  exact List.flatMap_congr fun op hop => (hops op (List.mem_reverse.1 hop)).2

/-- Where no label contexts are put in force at all, the reverse takes the same legs back. -/
theorem itinerary_reverse_of_unlabelled {K : Op → Prop}
    (hK : ∀ via names, ¬ K (.labelContext via names)) (hp : p.BuiltFrom K) :
    p.reverse.itinerary g = Leg.back (p.itinerary g) := by
  induction p using depth_induction with
  | step root ops ih =>
      have hkinds := builtFrom_iff.1 hp
      exact itinerary_reverse_of_follows (fun via names hmem => hK via names (hkinds _ hmem).kind)
        fun q reverse hop => ih q (depth_le_of_mem hop) (hkinds _ hop).2

end Path

end GraphQuery
