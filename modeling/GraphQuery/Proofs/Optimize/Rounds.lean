import GraphQuery.Proofs.Optimize.Reduced
import Mathlib.Data.Nat.Find

/-!
# How many passes are made

The first pass drops limits and skips of zero, and the second leaves a reduced plan. There an empty
literal set is all that is left to do. A pass turns it into nothing, and a constraint above it that
has tested the nothing is an empty literal set in turn; so one more pass is made for each constraint
above. How deep constraints are nested therefore bounds the number of passes.
-/

namespace GraphQuery.Plan

variable {store : QuadStore} {ordered : Bool}

/-! ## Heights -/

/-- How deep constraints are nested. -/
def constraintDepth : Plan → Nat :=
  heightBy (fun _ => 0) (· + 1) fun _ depth => depth

def emptyHeight : Plan → Nat :=
  heightBy (fun handles => if handles.isEmpty then 1 else 0) (fun n => if n = 0 then 0 else n + 1)
    fun _ height => height

theorem emptyHeight_constraint_le_iff {p : Plan} {cs : List Constraint} {n : Nat} :
    (Plan.constraint p cs).emptyHeight ≤ n ↔ p.emptyHeight = 0 ∨ p.emptyHeight + 1 ≤ n := by
  show (if p.emptyHeight = 0 then 0 else p.emptyHeight + 1) ≤ n ↔ _
  split <;> omega

theorem emptyHeight_simplifyConstraint_le (store : QuadStore) {n : Nat} {x : Simplified}
    (cs : List Constraint) (hx : x.1.emptyHeight ≤ n) :
    (simplifyConstraint store cs x).1.emptyHeight ≤ n + 1 := by
  obtain ⟨p, c⟩ := x
  have hraise : (Plan.constraint p cs).emptyHeight ≤ n + 1 :=
    emptyHeight_constraint_le_iff.2 (.inr (Nat.succ_le_succ hx))
  cases p with
  | constraint q inner => exact Nat.le_succ_of_le hx
  | fixed handles =>
      by_cases hall : handles.toList.all fun h => (store.resolve h).isSome
      · rw [simplifyConstraint, if_pos hall]
        show (if _ then 1 else 0) ≤ n + 1
        split <;> omega
      · rw [simplifyConstraint, if_neg hall]
        exact hraise
  | _ => exact hraise

theorem solid_simplifyConstraint {x : Simplified} (cs : List Constraint) :
    (simplifyConstraint store cs x).1.Solid := by
  unfold simplifyConstraint
  split
  · trivial
  · split <;> trivial
  · trivial

/-! ## Passes over any plan -/

/-- Constraints and empty literal sets only so deep and, if no sum of counts wraps around, no counts
of zero. -/
def Shallow (unwrapped : Prop) (n : Nat) (p : Plan) : Prop :=
  (unwrapped → p.Counted) ∧ p.constraintDepth ≤ n ∧ p.emptyHeight ≤ n

theorem inherited_shallow (unwrapped : Prop) (n : Nat) : Inherited (Shallow unwrapped n) :=
  (inherited_counted.imp unwrapped).inter (inherited_heightBy_le.inter inherited_heightBy_le)

variable {unwrapped : Prop}

theorem tidy_shallow_simplifyConstraint {n : Nat} {x : Simplified} (cs : List Constraint)
    (hx : x.1.Tidy (Shallow unwrapped n)) :
    (simplifyConstraint store cs x).1.Tidy (Shallow unwrapped (n + 1)) := by
  obtain ⟨⟨hcounted, hdepth, hheight⟩, -⟩ := hx
  have hraised := emptyHeight_simplifyConstraint_le store cs hheight
  suffices h : (unwrapped → (simplifyConstraint store cs x).1.Counted) ∧
      (simplifyConstraint store cs x).1.constraintDepth ≤ n + 1 from
    ⟨⟨h.1, h.2, hraised⟩, solid_simplifyConstraint cs⟩
  unfold simplifyConstraint
  split
  · exact ⟨hcounted, Nat.le_succ_of_le hdepth⟩
  · split
    · exact ⟨fun _ => trivial, Nat.zero_le _⟩
    · exact ⟨hcounted, Nat.succ_le_succ hdepth⟩
  · exact ⟨hcounted, Nat.succ_le_succ hdepth⟩

mutual

/-- A pass drops counts of zero and makes none unless a sum wraps around, and it leaves empty
literal sets only below constraints. -/
theorem tidy_shallow_pass (store : QuadStore) : ∀ (p : Plan) (ordered : Bool) (n : Nat),
    p.constraintDepth ≤ n → (unwrapped → p.Unwrapped store ordered) →
      (pass store ordered p).1.Tidy (Shallow unwrapped n)
  | .fixed handles, _, n, _, _ => by
      show (if handles.isEmpty then (Plan.null, true) else (.fixed handles, false)).1.Tidy _
      split
      · exact tidy_null (inherited_shallow unwrapped n)
      · rename_i hne
        refine ⟨⟨fun _ => trivial, Nat.zero_le n, ?_⟩, trivial⟩
        show (if handles.isEmpty then 1 else 0) ≤ n
        rw [if_neg hne]
        exact Nat.zero_le n
  | .null, _, n, _, _ | .all, _, n, _, _ | .input, _, n, _, _ =>
      ⟨⟨fun _ => trivial, Nat.zero_le n, Nat.zero_le n⟩, trivial⟩
  | .and ps primary, ordered, n, hp, hu => by
      rw [pass_and]
      exact tidy_simplifyAnd (inherited_shallow unwrapped n)
        (tidy_shallow_passOperands store _ ps 0 ordered n (heightAll_le_iff.1 hp) hu) .never
  | .or ps, ordered, n, hp, hu => by
      rw [pass_or]
      exact tidy_simplifyOr (inherited_shallow unwrapped n) (List.forall_mem_map.2
        (tidy_shallow_passAll store ps ordered n (heightAll_le_iff.1 hp) hu))
  | .not forbidden whole, ordered, n, hp, hu => by
      rw [pass_not]
      exact tidy_simplifyNot (inherited_shallow unwrapped n)
        (tidy_shallow_pass store forbidden false n (Nat.max_le.1 hp).1 fun h => (hu h).1)
        (tidy_shallow_pass store whole ordered n (Nat.max_le.1 hp).2 fun h => (hu h).2)
  | .unique p, _, n, hp, hu =>
      tidy_simplifyUnique (inherited_shallow unwrapped n) (tidy_shallow_pass store p true n hp hu)
  | .save p names, ordered, n, hp, hu =>
      tidy_simplifySave (inherited_shallow unwrapped n) names
        (tidy_shallow_pass store p ordered n hp hu)
  | .limit p k, _, n, hp, hu =>
      have hx := tidy_shallow_pass store p true n hp hu
      tidy_simplifyLimit hx (fun hk => ⟨fun h => ⟨hk, hx.holds.1 h⟩, hx.holds.2⟩)
        fun q m ⟨hq, hh⟩ => ⟨fun h => by
          obtain ⟨hk, hm, hq⟩ := hq h
          exact ⟨by rw [if_neg hm]; omega, hq⟩, hh⟩
  | .skip p k, _, n, hp, hu =>
      have hx := tidy_shallow_pass store p true n hp fun h => (hu h).1
      tidy_simplifySkip hx (fun hk => ⟨fun h => ⟨hk, hx.holds.1 h⟩, hx.holds.2⟩)
        fun q m heq ⟨hq, hh⟩ => ⟨fun h => by
          obtain ⟨hk, hm, hq⟩ := hq h
          have heq : (pass store true p).1 = .skip q m := heq
          have hfit := (hu h).2
          rw [heq] at hfit
          have hfit : m + k < UInt64.size := hfit
          exact ⟨by rw [Nat.mod_eq_of_lt hfit]; omega, hq⟩, hh⟩
  | .sort p, ordered, n, hp, hu =>
      tidy_simplifySort (inherited_shallow unwrapped n) (tidy_shallow_pass store p ordered n hp hu)
  | .step source fromEnd toEnd via names labels, ordered, n, hp, hu => by
      rw [pass_step]
      obtain ⟨hs, hp⟩ := Nat.max_le.1 hp
      obtain ⟨hv, hl⟩ := Nat.max_le.1 hp
      exact tidy_simplifyStep (inherited_shallow unwrapped n) fromEnd toEnd names
        (tidy_shallow_pass store source ordered n hs fun h => (hu h).1)
        (tidy_shallow_passOption store via n (heightOption_le_iff.1 hv) fun h => (hu h).2.1)
        (tidy_shallow_passOption store labels n (heightOption_le_iff.1 hl) fun h => (hu h).2.2)
  | .filter p _, ordered, n, hp, hu | .map p _, ordered, n, hp, hu =>
      ⟨(tidy_shallow_pass store p ordered n hp hu).holds, trivial⟩
  | .constraint p cs, ordered, n + 1, hp, hu =>
      tidy_shallow_simplifyConstraint cs
        (tidy_shallow_pass store p ordered n (Nat.le_of_succ_le_succ hp) hu)
  | .recursive p _ _ _ _, _, n, hp, hu =>
      tidy_simplifyRecursive (inherited_shallow unwrapped n)
        (tidy_shallow_pass store p true n hp hu).holds

theorem tidy_shallow_passOperands (store : QuadStore) (driver : Nat) :
    ∀ (ps : List Plan) (i : Nat) (ordered : Bool) (n : Nat),
      (∀ p ∈ ps, p.constraintDepth ≤ n) →
        (unwrapped → UnwrappedOperands store driver i ps ordered) →
          ∀ x ∈ passOperands store ordered driver i ps, x.1.Tidy (Shallow unwrapped n)
  | [], _, _, _, _, _ => nofun
  | p :: ps, i, ordered, n, hp, hu =>
      have hp := List.forall_mem_cons.1 hp
      List.forall_mem_cons.2 ⟨tidy_shallow_pass store p _ n hp.1 fun h => (hu h).1,
        tidy_shallow_passOperands store driver ps (i + 1) ordered n hp.2 fun h => (hu h).2⟩

theorem tidy_shallow_passAll (store : QuadStore) :
    ∀ (ps : List Plan) (ordered : Bool) (n : Nat), (∀ p ∈ ps, p.constraintDepth ≤ n) →
      (unwrapped → UnwrappedAll store ps ordered) →
        ∀ p ∈ ps, (pass store ordered p).1.Tidy (Shallow unwrapped n)
  | [], _, _, _, _ => nofun
  | p :: ps, ordered, n, hp, hu =>
      have hp := List.forall_mem_cons.1 hp
      List.forall_mem_cons.2 ⟨tidy_shallow_pass store p ordered n hp.1 fun h => (hu h).1,
        tidy_shallow_passAll store ps ordered n hp.2 fun h => (hu h).2⟩

theorem tidy_shallow_passOption (store : QuadStore) : ∀ (p : Option Plan) (n : Nat),
    (∀ q ∈ p, q.constraintDepth ≤ n) → (unwrapped → UnwrappedOption store p) →
      ∀ x ∈ p.map (pass store false), x.1.Tidy (Shallow unwrapped n)
  | none, _, _, _ => nofun
  | some p, n, hp, hu => by
      rintro _ ⟨⟩
      exact tidy_shallow_pass store p false n (hp p rfl) hu

end

theorem Unwrapped.counted_pass {p : Plan} (hp : p.Unwrapped store false) :
    (pass store false p).1.Counted :=
  (tidy_shallow_pass store p false _ (Nat.le_refl _) fun _ => hp).holds.1 trivial

theorem constraintDepth_pass_le (store : QuadStore) (p : Plan) :
    (pass store false p).1.constraintDepth ≤ p.constraintDepth :=
  (tidy_shallow_pass store p false _ (Nat.le_refl _) False.elim).holds.2.1

/-- Empty literal sets are no deeper than constraints were. -/
theorem low_pass (store : QuadStore) (p : Plan) :
    (pass store false p).1.emptyHeight ≤ p.constraintDepth :=
  (tidy_shallow_pass store p false _ (Nat.le_refl _) False.elim).holds.2.2

/-! ## Passes over reduced plans -/

mutual

/-- In a reduced plan without empty literal sets a pass finds nothing to do. -/
theorem Reduced.pass_eq (store : QuadStore) : ∀ (p : Plan) (ordered : Bool),
    p.Reduced store ordered → p.emptyHeight ≤ 0 → pass store ordered p = (p, false)
  | .fixed handles, _, _, he => by
      have hne : ¬ handles.isEmpty := by
        intro hempty
        simp [emptyHeight, heightBy, hempty] at he
      exact if_neg hne
  | .null, _, _, _ | .all, _, _, _ | .input, _, _, _ => rfl
  | .and ps k, ordered, hp, he => by
      have hlt := hp.1.driver_lt
      have hdriver : driver ps k = k := by
        unfold driver
        omega
      rw [pass_and, hdriver,
        Reduced.passOperands_eq store k ps 0 ordered hp.2 (heightAll_le_iff.1 he)]
      exact hp.1.kept
  | .or ps, ordered, hp, he => by
      rw [pass_or, List.map_congr_left (Reduced.passAll_eq store ps ordered hp.2
        (heightAll_le_iff.1 he))]
      exact hp.1.kept
  | .not forbidden whole, ordered, hp, he => by
      rw [pass_not, Reduced.pass_eq store forbidden false hp.2.1 (Nat.max_le.1 he).1,
        Reduced.pass_eq store whole ordered hp.2.2 (Nat.max_le.1 he).2]
      exact hp.1
  | .unique p, _, hp, he =>
      (congrArg simplifyUnique (Reduced.pass_eq store p true hp.2 he)).trans hp.1
  | .save p names, ordered, hp, he =>
      (congrArg (simplifySave names) (Reduced.pass_eq store p ordered hp.2 he)).trans hp.1
  | .limit p n, _, hp, he =>
      (congrArg (simplifyLimit n) (Reduced.pass_eq store p true hp.2 he)).trans hp.1
  | .skip p n, _, hp, he =>
      (congrArg (simplifySkip n) (Reduced.pass_eq store p true hp.2 he)).trans hp.1
  | .sort p, ordered, hp, he =>
      (congrArg simplifySort (Reduced.pass_eq store p ordered hp.2 he)).trans hp.1
  | .step source fromEnd toEnd via names labels, ordered, hp, he => by
      obtain ⟨hs, he⟩ := Nat.max_le.1 he
      obtain ⟨hv, hl⟩ := Nat.max_le.1 he
      rw [pass_step, Reduced.pass_eq store source ordered hp.2.1 hs,
        Reduced.passOption_eq store via hp.2.2.1 (heightOption_le_iff.1 hv),
        Reduced.passOption_eq store labels hp.2.2.2 (heightOption_le_iff.1 hl)]
      exact hp.1
  | .filter p test, ordered, hp, he =>
      congrArg (Prod.map (Plan.filter · test) id) (Reduced.pass_eq store p ordered hp he)
  | .map p f, ordered, hp, he =>
      congrArg (Prod.map (Plan.map · f) id) (Reduced.pass_eq store p ordered hp he)
  | .constraint p cs, ordered, hp, he =>
      (congrArg (simplifyConstraint store cs)
        (Reduced.pass_eq store p ordered hp.2
          (by have := emptyHeight_constraint_le_iff.1 he; omega))).trans hp.1
  | .recursive p morphism maxDepth depthNames bindings, _, hp, he =>
      (congrArg (simplifyRecursive morphism maxDepth depthNames bindings)
        (Reduced.pass_eq store p true hp.2 he)).trans hp.1

theorem Reduced.passOperands_eq (store : QuadStore) (driver : Nat) :
    ∀ (ps : List Plan) (i : Nat) (ordered : Bool), ReducedOperands store driver i ps ordered →
      (∀ p ∈ ps, p.emptyHeight ≤ 0) →
        passOperands store ordered driver i ps = ps.map (·, false)
  | [], _, _, _, _ => rfl
  | p :: ps, i, ordered, hp, he => by
      obtain ⟨hep, he⟩ := List.forall_mem_cons.1 he
      rw [passOperands, Reduced.pass_eq store p _ hp.1 hep,
        Reduced.passOperands_eq store driver ps (i + 1) ordered hp.2 he]
      rfl

theorem Reduced.passAll_eq (store : QuadStore) : ∀ (ps : List Plan) (ordered : Bool),
    ReducedAll store ps ordered → (∀ p ∈ ps, p.emptyHeight ≤ 0) →
      ∀ p ∈ ps, pass store ordered p = (p, false)
  | [], _, _, _ => nofun
  | p :: ps, ordered, hp, he =>
      have he := List.forall_mem_cons.1 he
      List.forall_mem_cons.2 ⟨Reduced.pass_eq store p ordered hp.1 he.1,
        Reduced.passAll_eq store ps ordered hp.2 he.2⟩

theorem Reduced.passOption_eq (store : QuadStore) : ∀ p : Option Plan, ReducedOption store p →
    (∀ q ∈ p, q.emptyHeight ≤ 0) → p.map (pass store false) = p.map (·, false)
  | none, _, _ => rfl
  | some p, hp, he => congrArg some (Reduced.pass_eq store p false hp (he p rfl))

end

/-- Empty literal sets are below so many constraints at most. -/
def Low (n : Nat) (p : Plan) : Prop :=
  p.emptyHeight ≤ n

theorem inherited_low (n : Nat) : Inherited (Low n) :=
  inherited_heightBy_le

mutual

/-- A pass over a reduced plan lowers its empty literal sets. -/
theorem Reduced.lower (store : QuadStore) : ∀ (p : Plan) (ordered : Bool) (n : Nat),
    p.Reduced store ordered → p.Low (n + 1) → (pass store ordered p).1.Tidy (Low n)
  | .fixed handles, _, n, _, _ => by
      show (if handles.isEmpty then (Plan.null, true) else (.fixed handles, false)).1.Tidy _
      split
      · exact tidy_null (inherited_low n)
      · rename_i hne
        refine ⟨?_, trivial⟩
        show (if handles.isEmpty then 1 else 0) ≤ n
        rw [if_neg hne]
        exact Nat.zero_le n
  | .null, _, n, _, _ | .all, _, n, _, _ | .input, _, n, _, _ => ⟨Nat.zero_le n, trivial⟩
  | .and ps k, ordered, n, hp, he => by
      have hlt := hp.1.driver_lt
      have hdriver : driver ps k = k := by
        unfold driver
        omega
      rw [pass_and, hdriver]
      exact tidy_simplifyAnd (inherited_low n)
        (Reduced.lowerOperands store k ps 0 ordered n hp.2 (heightAll_le_iff.1 he)) .never
  | .or ps, ordered, n, hp, he => by
      rw [pass_or]
      exact tidy_simplifyOr (inherited_low n) (List.forall_mem_map.2
        (Reduced.lowerAll store ps ordered n hp.2 (heightAll_le_iff.1 he)))
  | .not forbidden whole, ordered, n, hp, he => by
      rw [pass_not]
      exact tidy_simplifyNot (inherited_low n)
        (Reduced.lower store forbidden false n hp.2.1 (Nat.max_le.1 he).1)
        (Reduced.lower store whole ordered n hp.2.2 (Nat.max_le.1 he).2)
  | .unique p, _, n, hp, he =>
      tidy_simplifyUnique (inherited_low n) (Reduced.lower store p true n hp.2 he)
  | .save p names, ordered, n, hp, he =>
      tidy_simplifySave (inherited_low n) names (Reduced.lower store p ordered n hp.2 he)
  | .limit p _, _, n, hp, he =>
      have hx := Reduced.lower store p true n hp.2 he
      tidy_simplifyLimit hx (fun _ => hx.holds) fun _ _ hq => hq
  | .skip p _, _, n, hp, he =>
      have hx := Reduced.lower store p true n hp.2 he
      tidy_simplifySkip hx (fun _ => hx.holds) fun _ _ _ hq => hq
  | .sort p, ordered, n, hp, he =>
      tidy_simplifySort (inherited_low n) (Reduced.lower store p ordered n hp.2 he)
  | .step source fromEnd toEnd via names labels, ordered, n, hp, he => by
      rw [pass_step]
      obtain ⟨hs, he⟩ := Nat.max_le.1 he
      obtain ⟨hv, hl⟩ := Nat.max_le.1 he
      exact tidy_simplifyStep (inherited_low n) fromEnd toEnd names
        (Reduced.lower store source ordered n hp.2.1 hs)
        (Reduced.lowerOption store via n hp.2.2.1 (heightOption_le_iff.1 hv))
        (Reduced.lowerOption store labels n hp.2.2.2 (heightOption_le_iff.1 hl))
  | .filter p _, ordered, n, hp, he | .map p _, ordered, n, hp, he =>
      ⟨(Reduced.lower store p ordered n hp he).holds, trivial⟩
  | .constraint p cs, ordered, n, hp, he => by
      by_cases hnone : p.emptyHeight = 0
      · have heq : (Plan.constraint p cs).emptyHeight ≤ 0 :=
          emptyHeight_constraint_le_iff.2 (.inl hnone)
        rw [Reduced.pass_eq store _ ordered hp heq]
        exact ⟨Nat.le_trans heq (Nat.zero_le n), trivial⟩
      · have hle := (emptyHeight_constraint_le_iff.1 he).resolve_left hnone
        obtain ⟨m, rfl⟩ := Nat.exists_eq_succ_of_ne_zero (show n ≠ 0 by omega)
        have hlow := Reduced.lower store p ordered m hp.2 (Nat.le_of_succ_le_succ hle)
        exact ⟨emptyHeight_simplifyConstraint_le store cs hlow.holds, solid_simplifyConstraint cs⟩
  | .recursive p _ _ _ _, _, n, hp, he =>
      tidy_simplifyRecursive (inherited_low n) (Reduced.lower store p true n hp.2 he).holds

theorem Reduced.lowerOperands (store : QuadStore) (driver : Nat) :
    ∀ (ps : List Plan) (i : Nat) (ordered : Bool) (n : Nat),
      ReducedOperands store driver i ps ordered → (∀ p ∈ ps, p.Low (n + 1)) →
        ∀ x ∈ passOperands store ordered driver i ps, x.1.Tidy (Low n)
  | [], _, _, _, _, _ => nofun
  | p :: ps, i, ordered, n, hp, he =>
      have he := List.forall_mem_cons.1 he
      List.forall_mem_cons.2 ⟨Reduced.lower store p _ n hp.1 he.1,
        Reduced.lowerOperands store driver ps (i + 1) ordered n hp.2 he.2⟩

theorem Reduced.lowerAll (store : QuadStore) : ∀ (ps : List Plan) (ordered : Bool) (n : Nat),
    ReducedAll store ps ordered → (∀ p ∈ ps, p.Low (n + 1)) →
      ∀ p ∈ ps, (pass store ordered p).1.Tidy (Low n)
  | [], _, _, _, _ => nofun
  | p :: ps, ordered, n, hp, he =>
      have he := List.forall_mem_cons.1 he
      List.forall_mem_cons.2 ⟨Reduced.lower store p ordered n hp.1 he.1,
        Reduced.lowerAll store ps ordered n hp.2 he.2⟩

theorem Reduced.lowerOption (store : QuadStore) : ∀ (p : Option Plan) (n : Nat),
    ReducedOption store p → (∀ q ∈ p, q.Low (n + 1)) →
      ∀ x ∈ p.map (pass store false), x.1.Tidy (Low n)
  | none, _, _, _ => nofun
  | some p, n, hp, he => by
      rintro _ ⟨⟩
      exact Reduced.lower store p false n hp (he p rfl)

end

/-! ## Pass after pass -/

/-- The plan after so many passes from the root. -/
def afterPasses (store : QuadStore) : Nat → Plan → Plan
  | 0, p => p
  | k + 1, p => afterPasses store k (pass store false p).1

def changesAfter (store : QuadStore) (k : Nat) (p : Plan) : Bool :=
  (pass store false (afterPasses store k p)).2

theorem passesLeft_pass (passes left : Nat) (p : Plan) :
    passesLeft store passes (left + 1) p .never =
      if (pass store false p).2 then passesLeft store passes left (pass store false p).1 .never
      else (.ok (pass store false p).1, .never) := by
  rw [passesLeft_succ, Token.check_never]
  dsimp only
  rw [optimize_eq_pass]

/-- Passes end with the first one that changes nothing, if it is among those that may be made. -/
theorem passesLeft_eq (passes : Nat) {k : Nat} : ∀ {p : Plan} (left : Nat),
    (∀ j < k, changesAfter store j p = true) → changesAfter store k p = false →
      passesLeft store passes left p .never =
        if k < left then (.ok (afterPasses store (k + 1) p), .never)
        else (.error (.optimizerDiverged passes), .never) := by
  induction k with
  | zero =>
      intro p left _ hlast
      cases left with
      | zero => rfl
      | succ left =>
          rw [passesLeft_pass, if_neg (by simpa [changesAfter, afterPasses] using hlast)]
          rfl
  | succ k ih =>
      intro p left hbefore hlast
      cases left with
      | zero => rfl
      | succ left =>
          have hfirst : (pass store false p).2 = true := hbefore 0 (Nat.succ_pos k)
          rw [passesLeft_pass, if_pos hfirst,
            ih left (fun j hj => hbefore (j + 1) (Nat.succ_lt_succ hj)) hlast]
          simp only [Nat.succ_lt_succ_iff]
          rfl

theorem normalize_eq {k : Nat} {p : Plan} (hbefore : ∀ j < k, changesAfter store j p = true)
    (hlast : changesAfter store k p = false) (passes : Nat) :
    normalize store passes p .never =
      if k < max passes 1 then (.ok (afterPasses store (k + 1) p), .never)
      else (.error (.optimizerDiverged (max passes 1)), .never) :=
  passesLeft_eq _ _ hbefore hlast

/-- A reduced plan is left unchanged after as many passes as its empty literal sets are high. -/
theorem Reduced.exists_still : ∀ {n : Nat} {p : Plan}, p.Counted → p.Reduced store false →
    p.Low n → (∀ j < n, (afterPasses store j p).Unwrapped store false) →
      ∃ k ≤ n, changesAfter store k p = false
  | 0, p, _, hp, he, _ =>
      ⟨0, Nat.le_refl 0, congrArg Prod.snd (Reduced.pass_eq store p false hp he)⟩
  | n + 1, p, hcounted, hp, he, hu => by
      have hfirst : p.Unwrapped store false := hu 0 (Nat.succ_pos n)
      obtain ⟨k, hk, hstill⟩ := Reduced.exists_still hfirst.counted_pass
        (reduced_pass store p false hcounted hfirst) (Reduced.lower store p false n hp he).holds
        fun j hj => hu (j + 1) (Nat.succ_lt_succ hj)
      exact ⟨k + 1, Nat.succ_le_succ hk, hstill⟩

/-- As long as no sum of counts wraps around, one pass is made for each constraint along a branch,
and two besides, before one changes nothing. -/
theorem exists_still_of_unwrapped {n : Nat} {p : Plan} (hdepth : p.constraintDepth ≤ n)
    (hu : ∀ j < n + 2, (afterPasses store j p).Unwrapped store false) :
    ∃ k ≤ n + 2, changesAfter store k p = false := by
  have hfirst : p.Unwrapped store false := hu 0 (by omega)
  have hsecond : (pass store false p).1.Unwrapped store false := hu 1 (by omega)
  have hlow := Nat.le_trans (low_pass store (pass store false p).1)
    (Nat.le_trans (constraintDepth_pass_le store p) hdepth)
  obtain ⟨k, hk, hstill⟩ := Reduced.exists_still hsecond.counted_pass
    (reduced_pass store _ false hfirst.counted_pass hsecond) hlow
    fun j hj => hu (j + 2) (by omega)
  exact ⟨k + 2, by omega, hstill⟩

theorem skipsFit_afterPasses {p : Plan} (hp : p.SkipsFit) (k : Nat) :
    (afterPasses store k p).SkipsFit := by
  induction k generalizing p with
  | zero => exact hp
  | succ k ih => exact ih (hp.pass store false)

theorem constraintDepth_afterPasses_le (k : Nat) (p : Plan) :
    (afterPasses store k p).constraintDepth ≤ p.constraintDepth := by
  induction k generalizing p with
  | zero => exact Nat.le_refl _
  | succ k ih => exact Nat.le_trans (ih _) (constraintDepth_pass_le store p)

theorem skips_afterPasses_le (k : Nat) (p : Plan) :
    (afterPasses store k p).skips ≤ p.skips := by
  induction k generalizing p with
  | zero => exact Nat.le_refl _
  | succ k ih => exact Nat.le_trans (ih _) (fewerUnless_pass store p false).le

theorem afterPasses_add (j k : Nat) (p : Plan) :
    afterPasses store (j + k) p = afterPasses store k (afterPasses store j p) := by
  induction j generalizing p with
  | zero => rw [Nat.zero_add, afterPasses]
  | succ j ih => rw [Nat.succ_add, afterPasses, ih, afterPasses]

/-- Any plan is left unchanged after some passes. Where a sum of counts wraps around there is a skip
less, and the passes are counted anew. -/
theorem exists_still {n : Nat} : ∀ (s : Nat) (p : Plan), p.skips ≤ s → p.constraintDepth ≤ n →
    ∃ k < (s + 1) * (n + 3), changesAfter store k p = false := by
  intro s
  induction s with
  | zero =>
      intro p hskips hdepth
      have hu : ∀ j < n + 2, (afterPasses store j p).Unwrapped store false := fun j _ =>
        (fewerUnless_pass store _ false).holds
          (Nat.le_trans (skips_afterPasses_le j p) (Nat.le_trans hskips (Nat.zero_le _)))
      obtain ⟨k, hk, hstill⟩ := exists_still_of_unwrapped hdepth hu
      exact ⟨k, by omega, hstill⟩
  | succ s ih =>
      intro p hskips hdepth
      by_cases hu : ∀ j < n + 2, (afterPasses store j p).Unwrapped store false
      · obtain ⟨k, hk, hstill⟩ := exists_still_of_unwrapped hdepth hu
        refine ⟨k, Nat.lt_of_lt_of_le (Nat.lt_succ_of_le hk) ?_, hstill⟩
        exact Nat.le_mul_of_pos_left _ (Nat.succ_pos _)
      · obtain ⟨j, hj⟩ := not_forall.1 hu
        obtain ⟨hj, hwraps⟩ := Classical.not_imp.1 hj
        have hfewer : (afterPasses store (j + 1) p).skips < (afterPasses store j p).skips := by
          rw [afterPasses_add]
          exact Nat.lt_of_not_le fun hle => hwraps ((fewerUnless_pass store _ false).holds hle)
        have hle : (afterPasses store j p).skips ≤ p.skips := skips_afterPasses_le j p
        obtain ⟨k, hk, hstill⟩ := ih (afterPasses store (j + 1) p) (by omega)
          (Nat.le_trans (constraintDepth_afterPasses_le _ p) hdepth)
        refine ⟨j + 1 + k, ?_, ?_⟩
        · rw [Nat.succ_mul]
          omega
        · rwa [changesAfter, afterPasses_add]

theorem exists_first_still {p : Plan} {m : Nat}
    (hsome : ∃ k ≤ m, changesAfter store k p = false) :
    ∃ k ≤ m, (∀ j < k, changesAfter store j p = true) ∧ changesAfter store k p = false := by
  obtain ⟨k, hk, hstill⟩ := hsome
  have hsome : ∃ k, changesAfter store k p = false := ⟨k, hstill⟩
  exact ⟨Nat.find hsome, Nat.le_trans (Nat.find_min' hsome hstill) hk,
    fun j hj => eq_true_of_ne_false (Nat.find_min hsome hj), Nat.find_spec hsome⟩

end GraphQuery.Plan
