import GraphQuery.Proofs.Optimize.Joined

/-!
# Stacked skips

A pass merges skips that are stacked, and the sum of their counts may wrap around, even to zero. So
a plan in which the counts along a branch add up to a number of sixty-four bits is one thing, and a
plan in which they do not is another. Of the latter this much can be said: whenever a pass merges
two skips, there is one skip less.
-/

namespace GraphQuery.Plan

variable {store : QuadStore} {ordered : Bool}

/-! ## Passes without a sum that wraps around -/

mutual

/-- No sum of counts wraps around where the pass merges skips. `ordered` is what the pass is
told. -/
def Unwrapped (store : QuadStore) : Plan → (ordered : Bool) → Prop
  | .fixed _, _ | .null, _ | .all, _ | .input, _ => True
  | .and ps primary, ordered => UnwrappedOperands store (driver ps primary) 0 ps ordered
  | .or ps, ordered => UnwrappedAll store ps ordered
  | .not forbidden whole, ordered => Unwrapped store forbidden false ∧ Unwrapped store whole ordered
  | .unique p, _ | .limit p _, _ | .recursive p _ _ _ _, _ => Unwrapped store p true
  | .skip p n, _ => Unwrapped store p true ∧ (pass store true p).1.Skippable n
  | .save p _, ordered | .sort p, ordered | .filter p _, ordered | .map p _, ordered
  | .constraint p _, ordered => Unwrapped store p ordered
  | .step source _ _ via _ labels, ordered =>
      Unwrapped store source ordered ∧ UnwrappedOption store via ∧ UnwrappedOption store labels

def UnwrappedOperands (store : QuadStore) (driver : Nat) :
    Nat → List Plan → (ordered : Bool) → Prop
  | _, [], _ => True
  | i, p :: ps, ordered =>
      Unwrapped store p (ordered && i == driver) ∧ UnwrappedOperands store driver (i + 1) ps ordered

def UnwrappedAll (store : QuadStore) : List Plan → (ordered : Bool) → Prop
  | [], _ => True
  | p :: ps, ordered => Unwrapped store p ordered ∧ UnwrappedAll store ps ordered

def UnwrappedOption (store : QuadStore) : Option Plan → Prop
  | none => True
  | some p => Unwrapped store p false

end

/-! ## Counts that fit -/

theorem SkipsFit.pass {p : Plan} (hp : p.SkipsFit) (store : QuadStore) (ordered : Bool) :
    (pass store ordered p).1.SkipsFit :=
  Nat.lt_of_le_of_lt
    (tidy_optimize store p ordered .never _ p.within_anything (Nat.le_refl _)).holds.2 hp

mutual

theorem SkipsFit.unwrapped (store : QuadStore) :
    ∀ (p : Plan) (ordered : Bool), p.SkipsFit → p.Unwrapped store ordered
  | .fixed _, _, _ | .null, _, _ | .all, _, _ | .input, _, _ => trivial
  | .and ps _, ordered, hp =>
      SkipsFit.unwrappedOperands store _ ps 0 ordered (selective_skipsFit.and.1 hp)
  | .or ps, ordered, hp => SkipsFit.unwrappedAll store ps ordered (selective_skipsFit.or.1 hp)
  | .not forbidden whole, ordered, hp =>
      have hp := selective_skipsFit.not.1 hp
      ⟨SkipsFit.unwrapped store forbidden false hp.1, SkipsFit.unwrapped store whole ordered hp.2⟩
  | .unique p, _, hp | .limit p _, _, hp | .recursive p _ _ _ _, _, hp =>
      SkipsFit.unwrapped store p true hp
  | .skip p _, _, hp =>
      ⟨SkipsFit.unwrapped store p true hp.of_skip,
        hp.skippable_optimize true .never⟩
  | .save p _, ordered, hp | .sort p, ordered, hp | .filter p _, ordered, hp
  | .map p _, ordered, hp | .constraint p _, ordered, hp => SkipsFit.unwrapped store p ordered hp
  | .step source _ _ via _ labels, ordered, hp =>
      have hp := selective_skipsFit.step.1 hp
      ⟨SkipsFit.unwrapped store source ordered hp.1, SkipsFit.unwrappedOption store via hp.2.1,
        SkipsFit.unwrappedOption store labels hp.2.2⟩

theorem SkipsFit.unwrappedOperands (store : QuadStore) (driver : Nat) :
    ∀ (ps : List Plan) (i : Nat) (ordered : Bool), (∀ p ∈ ps, p.SkipsFit) →
      UnwrappedOperands store driver i ps ordered
  | [], _, _, _ => trivial
  | p :: ps, i, ordered, hp =>
      have hp := List.forall_mem_cons.1 hp
      ⟨SkipsFit.unwrapped store p _ hp.1,
        SkipsFit.unwrappedOperands store driver ps (i + 1) ordered hp.2⟩

theorem SkipsFit.unwrappedAll (store : QuadStore) :
    ∀ (ps : List Plan) (ordered : Bool), (∀ p ∈ ps, p.SkipsFit) → UnwrappedAll store ps ordered
  | [], _, _ => trivial
  | p :: ps, ordered, hp =>
      have hp := List.forall_mem_cons.1 hp
      ⟨SkipsFit.unwrapped store p ordered hp.1, SkipsFit.unwrappedAll store ps ordered hp.2⟩

theorem SkipsFit.unwrappedOption (store : QuadStore) :
    ∀ p : Option Plan, (∀ q ∈ p, q.SkipsFit) → UnwrappedOption store p
  | none, _ => trivial
  | some p, hp => SkipsFit.unwrapped store p false (hp p rfl)

end

/-! ## How many skips there are -/

mutual

def skips : Plan → Nat
  | .fixed _ | .null | .all | .input => 0
  | .and ps _ | .or ps => skipsAll ps
  | .not forbidden whole => skips forbidden + skips whole
  | .unique p | .save p _ | .limit p _ | .sort p | .filter p _ | .map p _ | .constraint p _
  | .recursive p _ _ _ _ => skips p
  | .skip p _ => skips p + 1
  | .step source _ _ via _ labels => skips source + (skipsOption via + skipsOption labels)

def skipsAll : List Plan → Nat
  | [] => 0
  | p :: ps => skips p + skipsAll ps

def skipsOption : Option Plan → Nat
  | none => 0
  | some p => skips p

end

theorem skipsAll_append (ps qs : List Plan) : skipsAll (ps ++ qs) = skipsAll ps + skipsAll qs := by
  induction ps with
  | nil => exact (Nat.zero_add _).symm
  | cons p ps ih => rw [List.cons_append, skipsAll, skipsAll, ih, Nat.add_assoc]

theorem skipsAll_singleton (p : Plan) : skipsAll [p] = p.skips :=
  rfl

theorem skipsAll_flatMap {f : Plan → List Plan} (hf : ∀ p, skipsAll (f p) = p.skips)
    (xs : List Simplified) :
    skipsAll (xs.flatMap fun x => f x.1) = skipsAll (xs.map Prod.fst) := by
  induction xs with
  | nil => rfl
  | cons x xs ih => rw [List.flatMap_cons, skipsAll_append, hf, ih, List.map_cons, skipsAll]

theorem skipsAll_branches (p : Plan) : skipsAll p.branches = p.skips := by
  cases p <;> rfl

theorem skipsAll_conjuncts (p : Plan) : skipsAll p.conjuncts = p.skips := by
  cases p <;> rfl

/-- No more than before, and fewer unless the condition holds. -/
structure FewerUnless (condition : Prop) (before after : Nat) : Prop where
  le : after ≤ before
  holds : before ≤ after → condition

namespace FewerUnless

variable {P Q : Prop} {k l m n : Nat}

theorem refl (hP : P) (n : Nat) : FewerUnless P n n :=
  ⟨Nat.le_refl n, fun _ => hP⟩

theorem trans (h : FewerUnless P m l) (hle : k ≤ l) : FewerUnless P m k :=
  ⟨Nat.le_trans hle h.le, fun hmk => h.holds (Nat.le_trans hmk hle)⟩

theorem add (h : FewerUnless P m k) (h' : FewerUnless Q n l) :
    FewerUnless (P ∧ Q) (m + n) (k + l) := by
  have hk := h.le
  have hl := h'.le
  exact ⟨by omega, fun hle => ⟨h.holds (by omega), h'.holds (by omega)⟩⟩

end FewerUnless

/-! ## The rules -/

section Rules

variable (x : Simplified)

theorem skips_simplifyNot_le (y : Simplified) :
    (simplifyNot x y).1.skips ≤ x.1.skips + y.1.skips := by
  unfold simplifyNot
  dsimp only
  split
  · exact Nat.le_add_left _ _
  · exact Nat.le_refl _

theorem skips_simplifyUnique_le : (simplifyUnique x).1.skips ≤ x.1.skips := by
  unfold simplifyUnique
  split
  · exact Nat.zero_le _
  · exact Nat.le_refl _
  · exact Nat.le_refl _

theorem skips_simplifySave_le (names : List String) :
    (simplifySave names x).1.skips ≤ x.1.skips := by
  unfold simplifySave
  split
  split
  · exact Nat.le_refl _
  · split <;> exact Nat.le_refl _

theorem skips_simplifyLimit_le (n : Nat) : (simplifyLimit n x).1.skips ≤ x.1.skips := by
  unfold simplifyLimit
  split
  split
  · exact Nat.le_refl _
  · split <;> exact Nat.le_refl _

theorem skips_simplifySort_le : (simplifySort x).1.skips ≤ x.1.skips := by
  unfold simplifySort
  split
  · exact Nat.zero_le _
  · exact Nat.le_refl _
  · exact Nat.le_refl _

theorem skips_simplifyConstraint_le (constraints : List Constraint) :
    (simplifyConstraint store constraints x).1.skips ≤ x.1.skips := by
  unfold simplifyConstraint
  split
  · exact Nat.le_refl _
  · split <;> exact Nat.le_refl _
  · exact Nat.le_refl _

theorem skips_simplifyRecursive_le (morphism : Plan) (maxDepth : Nat) (depthNames : List String)
    (bindings : ClosureBindings) :
    (simplifyRecursive morphism maxDepth depthNames bindings x).1.skips ≤ x.1.skips := by
  unfold simplifyRecursive
  split
  · exact Nat.zero_le _
  · exact Nat.le_refl _

theorem skips_simplifyStep_le (fromEnd toEnd : Direction) (names : List String)
    (via labels : Option Simplified) :
    (simplifyStep fromEnd toEnd names x via labels).1.skips ≤
      x.1.skips + (skipsOption (via.map Prod.fst) + skipsOption (labels.map Prod.fst)) := by
  unfold simplifyStep
  split
  · exact Nat.zero_le _
  · exact Nat.le_refl _

/-- Merged with another skip, a skip is one less, whatever becomes of the counts. -/
theorem fewerUnless_simplifySkip (n : Nat) :
    FewerUnless (x.1.Skippable n) (x.1.skips + 1) (simplifySkip n x).1.skips := by
  obtain ⟨p, c⟩ := x
  unfold simplifySkip
  dsimp only
  split
  · exact ⟨Nat.le_succ _, fun hle => absurd hle (Nat.not_succ_le_self _)⟩
  · split
    · exact ⟨Nat.le_succ _, fun hle => absurd hle (Nat.not_succ_le_self _)⟩
    next hnone =>
      refine .refl ?_ _
      cases p with
      | skip q m => exact absurd rfl (hnone q m)
      | _ => trivial

theorem skips_simplifyOr_le (xs : List Simplified) :
    (simplifyOr xs).1.skips ≤ skipsAll (xs.map Prod.fst) := by
  have hflat : skipsAll (flattenUnion xs).1 = skipsAll (xs.map Prod.fst) := by
    rw [branches_flatten, skipsAll_flatMap skipsAll_branches]
  rw [← hflat]
  unfold simplifyOr
  split
  · exact Nat.zero_le _
  next heq => rw [heq, skipsAll_singleton]
  next heq => exact Nat.le_of_eq (by rw [heq]; rfl)

theorem skipsAll_dropAll_le (ordered : Bool) (driver : Nat) (ps : List Plan) (i : Nat)
    (acc : Intersection) :
    skipsAll (dropAll ordered driver i ps acc).operands ≤ skipsAll acc.operands + skipsAll ps := by
  induction ps generalizing i acc with
  | nil => exact Nat.le_refl _
  | cons p ps ih =>
      rw [dropAll, skipsAll]
      split
      · have hrest := ih (i + 1) { acc with changed := true }
        dsimp only at hrest
        omega
      · refine Nat.le_trans (ih (i + 1) _) (Nat.le_of_eq ?_)
        rw [skipsAll_append, skipsAll_singleton, Nat.add_assoc]

theorem skipsAll_simplifyIntersection_le (ordered : Bool) (x : Intersection) :
    skipsAll (simplifyIntersection ordered x).operands ≤ skipsAll x.operands := by
  unfold simplifyIntersection
  split
  · exact Nat.le_refl _
  · dsimp only
    split
    · exact Nat.zero_le _
    · exact Nat.le_trans (skipsAll_dropAll_le ..) (Nat.le_of_eq (Nat.zero_add _))

theorem skips_joinPassed_le (driver : Nat) (xs : List Simplified) :
    (joinPassed store ordered driver xs).1.skips ≤ skipsAll (xs.map Prod.fst) := by
  have hflat : skipsAll (flattenIntersection driver 0 xs ⟨[], 0, false⟩).operands =
      skipsAll (xs.map Prod.fst) := by
    rw [operands_flatten, List.nil_append]
    exact skipsAll_flatMap skipsAll_conjuncts xs
  have hle := skipsAll_simplifyIntersection_le ordered
    (flattenIntersection driver 0 xs ⟨[], 0, false⟩)
  rw [hflat] at hle
  rcases joinPassed_cases store ordered driver xs with ⟨-, heq⟩ | ⟨-, ⟨p, hone, heq⟩ | ⟨-, heq⟩⟩
  · rw [heq]
    exact Nat.zero_le _
  · rwa [heq, ← skipsAll_singleton, ← hone]
  · rw [heq]
    exact hle

end Rules

/-! ## Passes -/

mutual

/-- A pass adds no skip, and a sum of counts wraps around only if there are fewer skips after it. -/
theorem fewerUnless_pass (store : QuadStore) : ∀ (p : Plan) (ordered : Bool),
    FewerUnless (p.Unwrapped store ordered) p.skips (pass store ordered p).1.skips
  | .fixed handles, _ => by
      show FewerUnless True 0
        (if handles.isEmpty then (Plan.null, true) else (.fixed handles, false)).1.skips
      split <;> exact .refl trivial 0
  | .null, _ | .all, _ | .input, _ => .refl trivial 0
  | .and ps primary, ordered => by
      rw [pass_and]
      exact (fewerUnless_passOperands store _ ps 0 ordered).trans (skips_joinPassed_le ..)
  | .or ps, ordered => by
      rw [pass_or]
      exact (fewerUnless_passAll store ps ordered).trans (skips_simplifyOr_le _)
  | .not forbidden whole, ordered => by
      rw [pass_not]
      exact ((fewerUnless_pass store forbidden false).add
        (fewerUnless_pass store whole ordered)).trans (skips_simplifyNot_le ..)
  | .unique p, _ => (fewerUnless_pass store p true).trans (skips_simplifyUnique_le _)
  | .save p _, ordered => (fewerUnless_pass store p ordered).trans (skips_simplifySave_le ..)
  | .limit p _, _ => (fewerUnless_pass store p true).trans (skips_simplifyLimit_le ..)
  | .skip p n, _ => by
      have hp := fewerUnless_pass store p true
      have hle := hp.le
      obtain ⟨hmerged, hskippable⟩ := fewerUnless_simplifySkip (pass store true p) n
      refine ⟨Nat.le_trans hmerged (Nat.succ_le_succ hle), fun hkept => ?_⟩
      have hkept : p.skips + 1 ≤ (simplifySkip n (pass store true p)).1.skips := hkept
      exact ⟨hp.holds (by omega), hskippable (by omega)⟩
  | .sort p, ordered => (fewerUnless_pass store p ordered).trans (skips_simplifySort_le _)
  | .step source fromEnd toEnd via names labels, ordered => by
      rw [pass_step]
      exact ((fewerUnless_pass store source ordered).add
        ((fewerUnless_passOption store via).add (fewerUnless_passOption store labels))).trans
          (skips_simplifyStep_le ..)
  | .filter p _, ordered | .map p _, ordered => fewerUnless_pass store p ordered
  | .constraint p _, ordered =>
      (fewerUnless_pass store p ordered).trans (skips_simplifyConstraint_le ..)
  | .recursive p _ _ _ _, _ =>
      (fewerUnless_pass store p true).trans (skips_simplifyRecursive_le ..)

theorem fewerUnless_passOperands (store : QuadStore) (driver : Nat) :
    ∀ (ps : List Plan) (i : Nat) (ordered : Bool),
      FewerUnless (UnwrappedOperands store driver i ps ordered) (skipsAll ps)
        (skipsAll ((passOperands store ordered driver i ps).map Prod.fst))
  | [], _, _ => .refl trivial 0
  | p :: ps, i, ordered =>
      (fewerUnless_pass store p _).add (fewerUnless_passOperands store driver ps (i + 1) ordered)

theorem fewerUnless_passAll (store : QuadStore) : ∀ (ps : List Plan) (ordered : Bool),
    FewerUnless (UnwrappedAll store ps ordered) (skipsAll ps)
      (skipsAll ((ps.map (pass store ordered)).map Prod.fst))
  | [], _ => .refl trivial 0
  | p :: ps, ordered => (fewerUnless_pass store p ordered).add (fewerUnless_passAll store ps ordered)

theorem fewerUnless_passOption (store : QuadStore) : ∀ p : Option Plan,
    FewerUnless (UnwrappedOption store p) (skipsOption p)
      (skipsOption ((p.map (pass store false)).map Prod.fst))
  | none => .refl trivial 0
  | some p => fewerUnless_pass store p false

end

end GraphQuery.Plan
