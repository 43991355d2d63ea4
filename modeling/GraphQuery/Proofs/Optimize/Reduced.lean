import GraphQuery.Proofs.Optimize.Stacked

/-!
# Reduced plans

To a reduced plan no rule applies, but that an empty literal set in it is nothing. What a pass makes
of a plan is reduced, as long as the plan has no limit and no skip of zero: when such an operator is
dropped, its operand has been simplified for an order that no longer matters. Nor may skips be merged
to one of zero, as they are if the sum of their counts wraps around.
-/

namespace GraphQuery.Plan

variable {store : QuadStore} {ordered : Bool}

/-! ## Plans to which no rule applies -/

mutual

/-- No rule applies in the plan, but that an empty literal set is nothing. `ordered` is what a pass
is told. -/
def Reduced (store : QuadStore) : Plan → (ordered : Bool) → Prop
  | .fixed _, _ | .null, _ | .all, _ | .input, _ => True
  | .and ps k, ordered => Joined store ordered ps k ∧ ReducedOperands store k 0 ps ordered
  | .or ps, ordered => United ps ∧ ReducedAll store ps ordered
  | .not forbidden whole, ordered =>
      simplifyNot (forbidden, false) (whole, false) = (.not forbidden whole, false) ∧
        Reduced store forbidden false ∧ Reduced store whole ordered
  | .unique p, _ => simplifyUnique (p, false) = (.unique p, false) ∧ Reduced store p true
  | .save p names, ordered =>
      simplifySave names (p, false) = (.save p names, false) ∧ Reduced store p ordered
  | .limit p n, _ => simplifyLimit n (p, false) = (.limit p n, false) ∧ Reduced store p true
  | .skip p n, _ => simplifySkip n (p, false) = (.skip p n, false) ∧ Reduced store p true
  | .sort p, ordered => simplifySort (p, false) = (.sort p, false) ∧ Reduced store p ordered
  | .step source fromEnd toEnd via names labels, ordered =>
      simplifyStep fromEnd toEnd names (source, false) (via.map (·, false))
          (labels.map (·, false)) = (.step source fromEnd toEnd via names labels, false) ∧
        Reduced store source ordered ∧ ReducedOption store via ∧ ReducedOption store labels
  | .filter p _, ordered | .map p _, ordered => Reduced store p ordered
  | .constraint p cs, ordered =>
      simplifyConstraint store cs (p, false) = (.constraint p cs, false) ∧ Reduced store p ordered
  | .recursive p morphism maxDepth depthNames bindings, _ =>
      simplifyRecursive morphism maxDepth depthNames bindings (p, false) =
          (.recursive p morphism maxDepth depthNames bindings, false) ∧ Reduced store p true

def ReducedOperands (store : QuadStore) (driver : Nat) : Nat → List Plan → (ordered : Bool) → Prop
  | _, [], _ => True
  | i, p :: ps, ordered =>
      Reduced store p (ordered && i == driver) ∧ ReducedOperands store driver (i + 1) ps ordered

def ReducedAll (store : QuadStore) : List Plan → (ordered : Bool) → Prop
  | [], _ => True
  | p :: ps, ordered => Reduced store p ordered ∧ ReducedAll store ps ordered

def ReducedOption (store : QuadStore) : Option Plan → Prop
  | none => True
  | some p => Reduced store p false

end

theorem reducedAll_iff {ps : List Plan} :
    ReducedAll store ps ordered ↔ ∀ p ∈ ps, p.Reduced store ordered := by
  induction ps with
  | nil => simp [ReducedAll]
  | cons p ps ih => simp [ReducedAll, ih]

theorem reducedOperands_append {k i : Nat} {ps qs : List Plan} :
    ReducedOperands store k i (ps ++ qs) ordered ↔
      ReducedOperands store k i ps ordered ∧
        ReducedOperands store k (i + ps.length) qs ordered := by
  induction ps generalizing i with
  | nil => simp [ReducedOperands]
  | cons p ps ih =>
      simp only [List.cons_append, ReducedOperands, ih, List.length_cons, and_assoc]
      rw [show i + 1 + ps.length = i + (ps.length + 1) by omega]

/-- Of operands that do not drive, or where the order does not matter, no order is kept. -/
theorem reducedOperands_probed {k : Nat} {ps : List Plan} :
    ∀ {i : Nat}, (ordered = true → k < i ∨ i + ps.length ≤ k) →
      (ReducedOperands store k i ps ordered ↔ ∀ p ∈ ps, p.Reduced store false) := by
  induction ps with
  | nil => simp [ReducedOperands]
  | cons p ps ih =>
      intro i hi
      have hprobed : (ordered && i == k) = false := by
        cases ordered with
        | false => rfl
        | true =>
            have := hi rfl
            simp only [List.length_cons] at this
            simp only [Bool.true_and, beq_eq_false_iff_ne]
            omega
      rw [ReducedOperands, hprobed, ih fun ho => by
        have := hi ho
        simp only [List.length_cons] at this
        omega]
      simp

theorem reducedOperands_focus {pre post : List Plan} {q : Plan} :
    ReducedOperands store pre.length 0 (pre ++ q :: post) ordered ↔
      (∀ p ∈ pre, p.Reduced store false) ∧ q.Reduced store ordered ∧
        ∀ p ∈ post, p.Reduced store false := by
  rw [reducedOperands_append, ReducedOperands, reducedOperands_probed fun _ => by omega,
    reducedOperands_probed fun _ => by omega]
  simp

/-! ## Rules for intersections -/

/-- What is known of the conjuncts of a reduced plan. -/
theorem Reduced.conjuncts {p : Plan} (hp : p.Reduced store ordered) :
    p.leader < p.conjuncts.length ∧ ReducedOperands store p.leader 0 p.conjuncts ordered ∧
      ∀ q ∈ p.conjuncts, q.conjuncts = [q] := by
  cases p with
  | and ps k =>
      obtain ⟨hjoined, hops⟩ := hp
      have hlt := hjoined.driver_lt
      have hleader : leader (.and ps k) = k := by
        show min k (ps.length - 1) = k
        omega
      rw [hleader]
      exact ⟨hlt, hops, hjoined.conjuncts_eq⟩
  | _ => simp_all [leader, Plan.conjuncts, ReducedOperands]

/-- Reduced operands with a driver, none of them an intersection. -/
structure Flat (store : QuadStore) (ordered : Bool) (x : Intersection) : Prop where
  driver_lt : x.driver < x.operands.length
  reduced : ReducedOperands store x.driver 0 x.operands ordered
  conjuncts_eq : ∀ p ∈ x.operands, p.conjuncts = [p]

theorem flat_flatten {k : Nat} {xs : List Simplified} (hk : k < xs.length)
    (hx : ReducedOperands store k 0 (xs.map Prod.fst) ordered) :
    Flat store ordered (flattenIntersection k 0 xs ⟨[], 0, false⟩) := by
  obtain ⟨xs, x, ys, rfl, rfl⟩ := exists_focus hk
  rw [List.map_append, List.map_cons, ← List.length_map (f := Prod.fst),
    reducedOperands_focus] at hx
  obtain ⟨hxs, hx, hys⟩ := hx
  have hopened : ∀ zs : List Simplified, (∀ p ∈ zs.map Prod.fst, p.Reduced store false) →
      ∀ q ∈ opened zs, q.Reduced store false ∧ q.conjuncts = [q] := by
    intro zs hzs q hq
    obtain ⟨z, hz, hq⟩ := List.mem_flatMap.1 hq
    obtain ⟨-, hops, hclosed⟩ := (hzs z.1 (List.mem_map_of_mem hz)).conjuncts
    rw [reducedOperands_probed (by simp)] at hops
    exact ⟨hops q hq, hclosed q hq⟩
  obtain ⟨hlt, hops, hclosed⟩ := hx.conjuncts
  obtain ⟨pre, q, post, hsplit, hlen⟩ := exists_focus hlt
  rw [hsplit, ← hlen, reducedOperands_focus] at hops
  rw [hsplit] at hclosed
  obtain ⟨hpre, hq, hpost⟩ := hops
  have hoperands := operands_flatten xs.length 0 (xs ++ x :: ys) ⟨[], 0, false⟩
  have hdriver := driver_flatten xs ys x
  have hall : opened (xs ++ x :: ys) = (opened xs ++ pre) ++ q :: (post ++ opened ys) := by
    simp [opened, hsplit]
  rw [List.nil_append, hall] at hoperands
  rw [← hlen, ← List.length_append] at hdriver
  refine ⟨?_, ?_, ?_⟩
  · rw [hoperands, hdriver]
    simp
  · rw [hoperands, hdriver, reducedOperands_focus]
    simp only [List.mem_append]
    exact ⟨fun p hp => hp.elim (fun hp => (hopened xs hxs p hp).1) (hpre p), hq,
      fun p hp => hp.elim (hpost p) fun hp => (hopened ys hys p hp).1⟩
  · rw [hoperands]
    intro p hp
    simp only [List.mem_append, List.mem_cons] at hp hclosed
    rcases hp with (hp | hp) | rfl | hp | hp
    · exact (hopened xs hxs p hp).2
    · exact hclosed p (.inl hp)
    · exact hclosed p (.inr (.inl rfl))
    · exact hclosed p (.inr (.inr hp))
    · exact (hopened ys hys p hp).2

theorem not_isAll_of_mem_restricting {ps : List Plan} {p : Plan} (hp : p ∈ restricting ps) :
    p.isAll = false := by
  simpa using (List.mem_filter.1 hp).2

theorem mem_of_mem_restricting {ps : List Plan} {p : Plan} (hp : p ∈ restricting ps) : p ∈ ps :=
  (List.mem_filter.1 hp).1

/-- If the order matters, only the driver can be all nodes. -/
theorem flat_simplifyIntersection_ordered {pre post : List Plan} {q : Plan} {c : Bool}
    (hlong : ¬(pre ++ q :: post).length ≤ 1)
    (hx : Flat store true ⟨pre ++ q :: post, pre.length, c⟩) :
    Flat store true (simplifyIntersection true ⟨pre ++ q :: post, pre.length, c⟩) ∧
      ∀ i p, (simplifyIntersection true ⟨pre ++ q :: post, pre.length, c⟩).operands[i]? = some p →
        p.isAll = true →
          i = (simplifyIntersection true ⟨pre ++ q :: post, pre.length, c⟩).driver := by
  obtain ⟨-, hops, hclosed⟩ := hx
  obtain ⟨hpre, hq, hpost⟩ := reducedOperands_focus.1 hops
  obtain ⟨hoperands, hdriver⟩ := simplifyIntersection_ordered (c := c) hlong
  rw [hoperands, hdriver]
  refine ⟨⟨?_, ?_, ?_⟩, fun i p hp hall => ?_⟩
  · rw [hoperands, hdriver]
    simp
  · rw [hoperands, hdriver, reducedOperands_focus]
    exact ⟨fun p hp => hpre p (mem_of_mem_restricting hp), hq,
      fun p hp => hpost p (mem_of_mem_restricting hp)⟩
  · rw [hoperands]
    intro p hp
    refine hclosed p ?_
    simp only [List.mem_append, List.mem_cons] at hp ⊢
    exact hp.imp mem_of_mem_restricting (Or.imp_right mem_of_mem_restricting)
  · rcases Nat.lt_trichotomy i (restricting pre).length with hi | hi | hi
    · rw [List.getElem?_append_left hi] at hp
      simp [not_isAll_of_mem_restricting (List.mem_of_getElem? hp)] at hall
    · exact hi
    · rw [List.getElem?_append_right (by omega), List.getElem?_cons, if_neg (by omega)] at hp
      simp [not_isAll_of_mem_restricting (List.mem_of_getElem? hp)] at hall

/-- If it does not, all nodes are left alone or not at all. -/
theorem flat_simplifyIntersection_unordered {x : Intersection} (hlong : ¬x.operands.length ≤ 1)
    (hx : Flat store false x) :
    Flat store false (simplifyIntersection false x) ∧
      ((simplifyIntersection false x).operands.length ≠ 1 →
        ∀ p ∈ (simplifyIntersection false x).operands, p.isAll = false) := by
  obtain ⟨-, hops, hclosed⟩ := hx
  rw [reducedOperands_probed (by simp)] at hops
  obtain ⟨hoperands, hdriver⟩ := simplifyIntersection_unordered hlong
  refine ⟨⟨hdriver, ?_, ?_⟩, ?_⟩
  · rw [reducedOperands_probed (by simp), hoperands]
    split
    · simp [Reduced]
    · exact fun p hp => hops p (mem_of_mem_restricting hp)
  · rw [hoperands]
    split
    · simp [Plan.conjuncts]
    · exact fun p hp => hclosed p (mem_of_mem_restricting hp)
  · rw [hoperands]
    split
    · simp
    · exact fun _ p => not_isAll_of_mem_restricting

/-- Dropping all nodes leaves them where their order matters, or alone. -/
theorem flat_simplifyIntersection {x : Intersection} (hx : Flat store ordered x) :
    Flat store ordered (simplifyIntersection ordered x) ∧
      ((simplifyIntersection ordered x).operands.length ≠ 1 →
        ∀ i p, (simplifyIntersection ordered x).operands[i]? = some p → p.isAll = true →
          ordered = true ∧ i = (simplifyIntersection ordered x).driver) := by
  have hlt := hx.driver_lt
  by_cases hone : x.operands.length ≤ 1
  · rw [simplifyIntersection_of_short hone]
    exact ⟨hx, fun hne => absurd (show x.operands.length = 1 by omega) hne⟩
  cases ordered with
  | true =>
      obtain ⟨operands, driver, c⟩ := x
      obtain ⟨pre, q, post, rfl, rfl⟩ := exists_focus hlt
      obtain ⟨hflat, hall⟩ := flat_simplifyIntersection_ordered hone hx
      exact ⟨hflat, fun _ i p hp hp' => ⟨rfl, hall i p hp hp'⟩⟩
  | false =>
      obtain ⟨hflat, hnone⟩ := flat_simplifyIntersection_unordered hone hx
      refine ⟨hflat, fun hne i p hp hall => ?_⟩
      have hrestricts := hnone hne p (List.mem_of_getElem? hp)
      exact absurd (hall.symm.trans hrestricts) (by decide)

/-- The rule for intersections leaves a reduced plan. -/
theorem reduced_joinPassed {k : Nat} {xs : List Simplified} (hk : k < xs.length)
    (hx : ReducedOperands store k 0 (xs.map Prod.fst) ordered) :
    (joinPassed store ordered k xs).1.Reduced store ordered := by
  have hflat := flat_flatten hk hx
  have hcases := joinPassed_cases store ordered k xs
  dsimp only at hcases
  revert hflat hcases
  generalize flattenIntersection k 0 xs ⟨[], 0, false⟩ = x
  intro hflat hcases
  obtain ⟨hy, hrestricts⟩ := flat_simplifyIntersection hflat
  have hmem : ∀ p ∈ (simplifyIntersection ordered x).operands, p ∈ x.operands ∨ p = .all :=
    fun p hp => mem_of_mem_simplifyIntersection hp
  revert hy hrestricts hmem hcases
  generalize simplifyIntersection ordered x = y
  obtain ⟨operands, d, c⟩ := y
  rintro hcases ⟨hlt, hops, hclosed⟩ hrestricts hmem
  dsimp only at hlt hops hclosed hrestricts hmem hcases
  rcases hcases with ⟨-, heq⟩ | ⟨⟨-, hnotNull⟩, ⟨p, rfl, heq⟩ | ⟨hlen, heq⟩⟩
  · rw [heq]
    trivial
  · -- A single operand drives.
    obtain rfl : d = 0 := by simpa using hlt
    rw [heq]
    simpa [ReducedOperands] using hops
  · rw [heq]
    have hnotNull : ∀ p ∈ operands, p.isNull = false := by
      intro p hp
      rcases hmem p hp with hp | rfl
      · exact hnotNull p hp
      · rfl
    have hseveral : 2 ≤ operands.length := by omega
    cases ordered with
    | true =>
        exact ⟨⟨hseveral, hlt, hnotNull, hclosed, hrestricts hlen, by simp⟩, hops⟩
    | false =>
        obtain ⟨p, hp, hmin⟩ := @pickDriver_smallest store operands d hlt
        refine ⟨⟨hseveral, (List.getElem?_eq_some_iff.1 hp).1, hnotNull, hclosed, ?_, ?_⟩, ?_⟩
        · intro i q hq hall
          exact absurd (hrestricts hlen i q hq hall).1 (by simp)
        · intro _ q hq
          obtain rfl := Option.some.inj (hp.symm.trans hq)
          exact hmin
        · rw [reducedOperands_probed (by simp)] at hops ⊢
          exact hops

/-! ## The other rules -/

section Rules

variable {x : Simplified}

theorem reduced_simplifyOr {xs : List Simplified} (hx : ∀ x ∈ xs, x.1.Reduced store ordered) :
    (simplifyOr xs).1.Reduced store ordered := by
  have hbranches : ∀ p ∈ (flattenUnion xs).1, p.Reduced store ordered ∧ p.branches = [p] := by
    rw [branches_flatten]
    intro p hp
    obtain ⟨x, hm, hp⟩ := List.mem_flatMap.1 hp
    have hx := hx x hm
    generalize x.1 = q at hx hp
    cases q with
    | null => cases hp
    | or ps => exact ⟨reducedAll_iff.1 hx.2 p hp, hx.1.branches_eq p hp⟩
    | _ =>
        obtain rfl := List.mem_singleton.1 hp
        exact ⟨hx, rfl⟩
  unfold simplifyOr
  split
  · trivial
  · rename_i p _ heq
    exact (hbranches p (by simp [heq])).1
  · rename_i ps _ hnil hone heq
    rw [heq] at hbranches
    refine ⟨⟨?_, fun p hp => (hbranches p hp).2⟩,
      reducedAll_iff.2 fun p hp => (hbranches p hp).1⟩
    match ps with
    | [] => exact absurd rfl hnil
    | [p] => exact absurd rfl (hone p)
    | _ :: _ :: _ => simp

theorem reduced_simplifyNot {forbidden whole : Simplified}
    (hf : forbidden.1.Reduced store false) (hw : whole.1.Reduced store ordered) :
    (simplifyNot forbidden whole).1.Reduced store ordered := by
  obtain ⟨f, c⟩ := forbidden
  obtain ⟨w, c'⟩ := whole
  by_cases hnull : f.isNull || w.isNull
  · rw [simplifyNot, if_pos hnull]
    exact hw
  · rw [simplifyNot, if_neg hnull]
    exact ⟨if_neg hnull, hf, hw⟩

theorem reduced_simplifyUnique (hx : x.1.Reduced store true) :
    (simplifyUnique x).1.Reduced store ordered := by
  obtain ⟨p, c⟩ := x
  cases p with
  | null => trivial
  | unique p => exact hx
  | _ => exact ⟨rfl, hx⟩

theorem reduced_simplifySort (hx : x.1.Reduced store ordered) :
    (simplifySort x).1.Reduced store ordered := by
  obtain ⟨p, c⟩ := x
  cases p with
  | null => trivial
  | sort p => exact hx
  | _ => exact ⟨rfl, hx⟩

theorem mergeNames_ne_nil {inner outer : List String} (h : inner ≠ []) :
    mergeNames inner outer ≠ [] := by
  unfold mergeNames
  induction outer generalizing inner with
  | nil => exact h
  | cons name outer ih =>
      rw [List.foldl_cons]
      refine ih ?_
      split
      · exact h
      · simp

/-- Names are bound by an operator of its own if there are any, unless the operand is nothing or
binds names itself. -/
theorem simplifySave_kept_iff {p : Plan} {names : List String} :
    simplifySave names (p, false) = (.save p names, false) ↔
      names ≠ [] ∧ p.isNull = false ∧ ∀ q inner, p ≠ .save q inner := by
  cases p with
  | save q inner =>
      simp only [simplifySave]
      split <;> simp
  | _ => simp [simplifySave, isNull]

theorem reduced_simplifySave {names : List String} (hx : x.1.Reduced store ordered) :
    (simplifySave names x).1.Reduced store ordered := by
  obtain ⟨p, c⟩ := x
  by_cases hdrop : names.isEmpty || p.isNull
  · have heq : simplifySave names (p, c) = (p, true) := if_pos hdrop
    rw [heq]
    exact hx
  · have hnames : names ≠ [] ∧ p.isNull = false := by simpa using hdrop
    cases p with
    | save q inner =>
        obtain ⟨hkept, hq⟩ := hx
        obtain ⟨hinner, hnull, hsave⟩ := simplifySave_kept_iff.1 hkept
        rw [simplifySave, if_neg hdrop]
        exact ⟨simplifySave_kept_iff.2 ⟨mergeNames_ne_nil hinner, hnull, hsave⟩, hq⟩
    | _ =>
        rw [simplifySave, if_neg hdrop]
        · exact ⟨simplifySave_kept_iff.2 ⟨hnames.1, hnames.2, nofun⟩, hx⟩
        · nofun

theorem simplifyLimit_kept_iff {p : Plan} {n : Nat} :
    simplifyLimit n (p, false) = (.limit p n, false) ↔
      n ≠ 0 ∧ p.isNull = false ∧ ∀ q m, p ≠ .limit q m := by
  cases p with
  | limit q m =>
      simp only [simplifyLimit]
      split <;> simp
  | _ => simp [simplifyLimit, isNull]

/-- A limit of zero would leave what was simplified for an order that matters. -/
theorem reduced_simplifyLimit {n : Nat} (hn : n ≠ 0) (hx : x.1.Reduced store true) :
    (simplifyLimit n x).1.Reduced store ordered := by
  obtain ⟨p, c⟩ := x
  cases p with
  | null => simp [simplifyLimit, isNull, Reduced]
  | limit q m =>
      obtain ⟨hkept, hq⟩ := hx
      obtain ⟨hm, hnull, hlimit⟩ := simplifyLimit_kept_iff.1 hkept
      have hmin : (if m = 0 then n else min m n) ≠ 0 := by
        rw [if_neg hm]
        omega
      have heq : simplifyLimit n (.limit q m, c) =
          (.limit q (if m = 0 then n else min m n), true) := by
        simp [simplifyLimit, isNull, hn]
      rw [heq]
      exact ⟨simplifyLimit_kept_iff.2 ⟨hmin, hnull, hlimit⟩, hq⟩
  | _ =>
      simp only [simplifyLimit, isNull, hn, decide_false, Bool.false_or, Bool.false_eq_true,
        if_false]
      exact ⟨simplifyLimit_kept_iff.2 ⟨hn, rfl, by simp⟩, hx⟩

theorem simplifySkip_kept_iff {p : Plan} {n : Nat} :
    simplifySkip n (p, false) = (.skip p n, false) ↔
      n ≠ 0 ∧ p.isNull = false ∧ ∀ q m, p ≠ .skip q m := by
  cases p with
  | skip q m =>
      simp only [simplifySkip]
      split <;> simp
  | _ => simp [simplifySkip, isNull]

theorem reduced_simplifySkip {n : Nat} (hn : n ≠ 0) (hfit : x.1.Skippable n)
    (hx : x.1.Reduced store true) : (simplifySkip n x).1.Reduced store ordered := by
  obtain ⟨p, c⟩ := x
  cases p with
  | null => simp [simplifySkip, isNull, Reduced]
  | skip q m =>
      obtain ⟨hkept, hq⟩ := hx
      obtain ⟨-, hnull, hskip⟩ := simplifySkip_kept_iff.1 hkept
      have heq : simplifySkip n (.skip q m, c) = (.skip q (m + n), true) := by
        simp only [simplifySkip, Nat.mod_eq_of_lt hfit]
        simp [isNull, hn]
      rw [heq]
      exact ⟨simplifySkip_kept_iff.2 ⟨by omega, hnull, hskip⟩, hq⟩
  | _ =>
      simp only [simplifySkip, isNull, hn, decide_false, Bool.false_or, Bool.false_eq_true,
        if_false]
      exact ⟨simplifySkip_kept_iff.2 ⟨hn, rfl, by simp⟩, hx⟩

theorem reduced_simplifyStep {fromEnd toEnd : Direction} {names : List String}
    {via labels : Option Simplified} (hx : x.1.Reduced store ordered)
    (hv : ReducedOption store (via.map Prod.fst))
    (hl : ReducedOption store (labels.map Prod.fst)) :
    (simplifyStep fromEnd toEnd names x via labels).1.Reduced store ordered := by
  by_cases hnull : x.1.isNull || via.any (·.1.isNull) || labels.any (·.1.isNull)
  · rw [simplifyStep, if_pos hnull]
    trivial
  · rw [simplifyStep, if_neg hnull]
    refine ⟨?_, hx, hv, hl⟩
    rw [simplifyStep, if_neg (by simpa [Option.any_map] using hnull)]
    cases via <;> cases labels <;> rfl

theorem simplifyConstraint_kept_iff {p : Plan} {cs : List Constraint} :
    simplifyConstraint store cs (p, false) = (.constraint p cs, false) ↔
      (∀ q inner, p ≠ .constraint q inner) ∧
        ∀ handles, p = .fixed handles →
          ¬ handles.toList.all fun h => (store.resolve h).isSome := by
  cases p with
  | fixed handles =>
      simp only [simplifyConstraint]
      split <;> simp_all
  | _ => simp [simplifyConstraint]

theorem reduced_simplifyConstraint {cs : List Constraint} (hx : x.1.Reduced store ordered) :
    (simplifyConstraint store cs x).1.Reduced store ordered := by
  obtain ⟨p, c⟩ := x
  cases p with
  | constraint q inner =>
      obtain ⟨hkept, hq⟩ := hx
      exact ⟨simplifyConstraint_kept_iff.2 (simplifyConstraint_kept_iff.1 hkept), hq⟩
  | fixed handles =>
      by_cases hall : handles.toList.all fun h => (store.resolve h).isSome
      · rw [simplifyConstraint, if_pos hall]
        trivial
      · rw [simplifyConstraint, if_neg hall]
        exact ⟨if_neg hall, trivial⟩
  | _ => exact ⟨rfl, hx⟩

theorem reduced_simplifyRecursive {morphism : Plan} {maxDepth : Nat} {depthNames : List String}
    {bindings : ClosureBindings} (hx : x.1.Reduced store true) :
    (simplifyRecursive morphism maxDepth depthNames bindings x).1.Reduced store ordered := by
  obtain ⟨p, c⟩ := x
  cases p with
  | null => trivial
  | _ => exact ⟨rfl, hx⟩

end Rules

/-! ## Passes -/

mutual

def Counted : Plan → Prop
  | .fixed _ | .null | .all | .input => True
  | .and ps _ | .or ps => CountedAll ps
  | .not forbidden whole => Counted forbidden ∧ Counted whole
  | .unique p | .save p _ | .sort p | .filter p _ | .map p _ | .constraint p _
  | .recursive p _ _ _ _ => Counted p
  | .limit p n | .skip p n => n ≠ 0 ∧ Counted p
  | .step source _ _ via _ labels => Counted source ∧ CountedOption via ∧ CountedOption labels

def CountedAll : List Plan → Prop
  | [] => True
  | p :: ps => Counted p ∧ CountedAll ps

def CountedOption : Option Plan → Prop
  | none => True
  | some p => Counted p

end

theorem countedAll_iff {ps : List Plan} : CountedAll ps ↔ ∀ p ∈ ps, p.Counted := by
  induction ps with
  | nil => simp [CountedAll]
  | cons p ps ih => simp [CountedAll, ih]

theorem countedOption_iff {p : Option Plan} : CountedOption p ↔ ∀ q ∈ p, q.Counted := by
  cases p <;> simp [CountedOption]

theorem inherited_counted : Inherited Counted where
  null := trivial
  all := trivial
  and := countedAll_iff
  or := countedAll_iff
  not := .rfl
  unique := .rfl
  save := .rfl
  sort := .rfl
  step := and_congr .rfl (and_congr countedOption_iff countedOption_iff)

mutual

/-- What a pass makes of a plan is reduced. -/
theorem reduced_pass (store : QuadStore) : ∀ (p : Plan) (ordered : Bool), p.Counted →
    p.Unwrapped store ordered → (pass store ordered p).1.Reduced store ordered
  | .fixed handles, _, _, _ => by
      show (if handles.isEmpty then (Plan.null, true) else (.fixed handles, false)).1.Reduced _ _
      split <;> trivial
  | .null, _, _, _ | .all, _, _, _ | .input, _, _, _ => trivial
  | .and [] primary, _, _, _ => trivial
  | .and (p :: ps) primary, ordered, hp, hu => by
      rw [pass_and]
      refine reduced_joinPassed ?_ (reduced_passOperands store _ (p :: ps) 0 ordered hp hu)
      rw [length_passOperands, driver, List.length_cons]
      omega
  | .or ps, ordered, hp, hu => by
      rw [pass_or]
      exact reduced_simplifyOr (List.forall_mem_map.2 (reduced_passAll store ps ordered hp hu))
  | .not forbidden whole, ordered, hp, hu => by
      rw [pass_not]
      exact reduced_simplifyNot (reduced_pass store forbidden false hp.1 hu.1)
        (reduced_pass store whole ordered hp.2 hu.2)
  | .unique p, _, hp, hu => reduced_simplifyUnique (reduced_pass store p true hp hu)
  | .save p _, ordered, hp, hu => reduced_simplifySave (reduced_pass store p ordered hp hu)
  | .limit p _, _, hp, hu => reduced_simplifyLimit hp.1 (reduced_pass store p true hp.2 hu)
  | .skip p _, _, hp, hu => reduced_simplifySkip hp.1 hu.2 (reduced_pass store p true hp.2 hu.1)
  | .sort p, ordered, hp, hu => reduced_simplifySort (reduced_pass store p ordered hp hu)
  | .step source fromEnd toEnd via names labels, ordered, hp, hu => by
      rw [pass_step]
      exact reduced_simplifyStep (reduced_pass store source ordered hp.1 hu.1)
        (reduced_passOption store via hp.2.1 hu.2.1) (reduced_passOption store labels hp.2.2 hu.2.2)
  | .filter p _, ordered, hp, hu | .map p _, ordered, hp, hu => reduced_pass store p ordered hp hu
  | .constraint p _, ordered, hp, hu =>
      reduced_simplifyConstraint (reduced_pass store p ordered hp hu)
  | .recursive p _ _ _ _, _, hp, hu => reduced_simplifyRecursive (reduced_pass store p true hp hu)

theorem reduced_passOperands (store : QuadStore) (driver : Nat) :
    ∀ (ps : List Plan) (i : Nat) (ordered : Bool), CountedAll ps →
      UnwrappedOperands store driver i ps ordered →
        ReducedOperands store driver i ((passOperands store ordered driver i ps).map Prod.fst)
          ordered
  | [], _, _, _, _ => trivial
  | p :: ps, i, ordered, hp, hu =>
      ⟨reduced_pass store p _ hp.1 hu.1,
        reduced_passOperands store driver ps (i + 1) ordered hp.2 hu.2⟩

theorem reduced_passAll (store : QuadStore) : ∀ (ps : List Plan) (ordered : Bool), CountedAll ps →
    UnwrappedAll store ps ordered → ∀ p ∈ ps, (pass store ordered p).1.Reduced store ordered
  | [], _, _, _ => nofun
  | p :: ps, ordered, hp, hu => List.forall_mem_cons.2
      ⟨reduced_pass store p ordered hp.1 hu.1, reduced_passAll store ps ordered hp.2 hu.2⟩

theorem reduced_passOption (store : QuadStore) : ∀ p : Option Plan, CountedOption p →
    UnwrappedOption store p → ReducedOption store ((p.map (pass store false)).map Prod.fst)
  | none, _, _ => trivial
  | some p, hp, hu => reduced_pass store p false hp hu

end

end GraphQuery.Plan
