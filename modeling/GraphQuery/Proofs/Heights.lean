import GraphQuery.Proofs.Allowance

/-!
# Heights of plans

What the operators of one kind amount to, one above the other, along the branch of a plan where they
amount to most: how deep constraints are nested, for instance, or how many results are skipped.
-/

namespace GraphQuery.Plan

mutual

/-- The greatest height along a branch: what a literal set gives, raised by the constraints and the
skips above it. -/
def heightBy (literal : HandleList → Nat) (constrain : Nat → Nat) (skip : Nat → Nat → Nat) :
    Plan → Nat
  | .fixed handles => literal handles
  | .null | .all | .input => 0
  | .and ps _ | .or ps => heightAll literal constrain skip ps
  | .not forbidden whole =>
      max (heightBy literal constrain skip forbidden) (heightBy literal constrain skip whole)
  | .unique p | .save p _ | .limit p _ | .sort p | .filter p _ | .map p _ | .recursive p _ _ _ _ =>
      heightBy literal constrain skip p
  | .skip p n => skip n (heightBy literal constrain skip p)
  | .step source _ _ via _ labels =>
      max (heightBy literal constrain skip source)
        (max (heightOption literal constrain skip via) (heightOption literal constrain skip labels))
  | .constraint p _ => constrain (heightBy literal constrain skip p)

def heightAll (literal : HandleList → Nat) (constrain : Nat → Nat) (skip : Nat → Nat → Nat) :
    List Plan → Nat
  | [] => 0
  | p :: ps => max (heightBy literal constrain skip p) (heightAll literal constrain skip ps)

def heightOption (literal : HandleList → Nat) (constrain : Nat → Nat) (skip : Nat → Nat → Nat) :
    Option Plan → Nat
  | none => 0
  | some p => heightBy literal constrain skip p

end

section

variable {literal : HandleList → Nat} {constrain : Nat → Nat} {skip : Nat → Nat → Nat} {n : Nat}

theorem heightAll_le_iff {ps : List Plan} :
    heightAll literal constrain skip ps ≤ n ↔ ∀ p ∈ ps, heightBy literal constrain skip p ≤ n := by
  induction ps with
  | nil => simp [heightAll]
  | cons p ps ih => rw [heightAll, Nat.max_le, ih, List.forall_mem_cons]

theorem heightOption_le_iff {p : Option Plan} :
    heightOption literal constrain skip p ≤ n ↔
      ∀ q ∈ p, heightBy literal constrain skip q ≤ n := by
  cases p <;> simp [heightOption]

theorem inherited_heightBy_le : Inherited fun p => heightBy literal constrain skip p ≤ n where
  null := Nat.zero_le n
  all := Nat.zero_le n
  and := heightAll_le_iff
  or := heightAll_le_iff
  not := Nat.max_le
  unique := .rfl
  save := .rfl
  sort := .rfl
  step := Nat.max_le.trans (and_congr .rfl
    (Nat.max_le.trans (and_congr heightOption_le_iff heightOption_le_iff)))

end

/-! ## Skips -/

/-- The most that the counts of skips along a branch add up to. -/
def skipTotal : Plan → Nat :=
  heightBy (fun _ => 0) id fun n total => total + n

theorem skipTotal_skip (p : Plan) (n : Nat) : (Plan.skip p n).skipTotal = p.skipTotal + n :=
  rfl

/-- Along no branch do the counts of skips add up to more than a number of sixty-four bits, so
stacked skips can be merged. -/
def SkipsFit (p : Plan) : Prop :=
  p.skipTotal < UInt64.size

instance (p : Plan) : Decidable p.SkipsFit :=
  inferInstanceAs (Decidable (p.skipTotal < UInt64.size))

theorem skipsFit_of_eq_zero {p : Plan} (h : p.skipTotal = 0) : p.SkipsFit := by
  rw [SkipsFit, h]
  decide

theorem SkipsFit.of_skip {p : Plan} {n : Nat} (h : (Plan.skip p n).SkipsFit) : p.SkipsFit :=
  Nat.lt_of_le_of_lt (Nat.le_add_right _ n) h

/-- The plan is no skip, or one that a skip of `n` results can be merged with. -/
def Skippable (n : Nat) : Plan → Prop
  | .skip _ m => m + n < UInt64.size
  | _ => True

theorem skippable_of_fit {p : Plan} {n : Nat} (h : p.skipTotal + n < UInt64.size) :
    p.Skippable n := by
  cases p with
  | skip q m =>
      rw [skipTotal_skip] at h
      show m + n < UInt64.size
      omega
  | _ => trivial

theorem selective_skipTotal_le (n : Nat) : Selective fun p => p.skipTotal ≤ n where
  toInherited := inherited_heightBy_le
  fixed _ _ _ := Nat.zero_le n
  constraint := .rfl

theorem selective_skipsFit : Selective SkipsFit := by
  have hfit : (fun p : Plan => p.skipTotal ≤ UInt64.size - 1) = SkipsFit :=
    funext fun p => propext (Nat.lt_succ_iff (m := p.skipTotal) (n := UInt64.size - 1)).symm
  exact hfit ▸ selective_skipTotal_le (UInt64.size - 1)

end GraphQuery.Plan
