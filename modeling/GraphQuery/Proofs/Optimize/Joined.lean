import GraphQuery.Proofs.Optimize.Uninterrupted

/-!
# Operands that the rules leave as they are

An intersection is settled when none of its operands can be opened or dropped and the smallest of
them drives; a union, when none of its branches can.
-/

namespace GraphQuery.Plan

variable {store : QuadStore} {ordered : Bool}

/-! ## The smallest operand drives -/

def estimatedSize (store : QuadStore) (p : Plan) : Int64 :=
  (p.estimate store).size.value

theorem pickSmallest_cons (i : Nat) (p : Plan) (ps : List Plan) (best : Nat) (size : Int64) :
    pickSmallest store i (p :: ps) best size .never =
      if p.estimatedSize store < size then
        pickSmallest store (i + 1) ps i (p.estimatedSize store) .never
      else pickSmallest store (i + 1) ps best size .never := by
  simp only [pickSmallest, bind, StateT.bind, cost_never]
  exact apply_ite (fun m : StateM Token Nat => m .never) _ _ _

/-- What is chosen is no larger than the operands looked at, nor than what was there before. -/
theorem pickSmallest_smallest (ps : List Plan) : ∀ (i best : Nat) (size : Int64),
    ((pickSmallest store i ps best size .never).1 = best ∧
        ∀ q ∈ ps, size ≤ q.estimatedSize store) ∨
      ∃ j p, ps[j]? = some p ∧ (pickSmallest store i ps best size .never).1 = i + j ∧
        p.estimatedSize store ≤ size ∧ ∀ q ∈ ps, p.estimatedSize store ≤ q.estimatedSize store := by
  induction ps with
  | nil => exact fun i best size => .inl ⟨rfl, by simp⟩
  | cons p ps ih =>
      intro i best size
      rw [pickSmallest_cons]
      split
      · rename_i hlt
        rcases ih (i + 1) i (p.estimatedSize store) with ⟨hb, hmin⟩ | ⟨j, q, hq, hb, hle, hmin⟩
        · refine .inr ⟨0, p, rfl, hb, Int64.le_of_lt hlt, fun q hq => ?_⟩
          rcases List.mem_cons.1 hq with rfl | hq
          · exact Int64.le_refl _
          · exact hmin q hq
        · refine .inr ⟨j + 1, q, hq, by omega, Int64.le_trans hle (Int64.le_of_lt hlt), fun r hr => ?_⟩
          rcases List.mem_cons.1 hr with rfl | hr
          · exact hle
          · exact hmin r hr
      · rename_i hge
        rcases ih (i + 1) best size with ⟨hb, hmin⟩ | ⟨j, q, hq, hb, hle, hmin⟩
        · refine .inl ⟨hb, fun q hq => ?_⟩
          rcases List.mem_cons.1 hq with rfl | hq
          · exact Int64.not_lt.1 hge
          · exact hmin q hq
        · refine .inr ⟨j + 1, q, hq, by omega, hle, fun r hr => ?_⟩
          rcases List.mem_cons.1 hr with rfl | hr
          · exact Int64.le_trans hle (Int64.not_lt.1 hge)
          · exact hmin r hr

theorem pickSmallest_keeps {ps : List Plan} {size : Int64}
    (hmin : ∀ q ∈ ps, size ≤ q.estimatedSize store) (i best : Nat) :
    (pickSmallest store i ps best size .never).1 = best := by
  induction ps generalizing i with
  | nil => rfl
  | cons p ps ih =>
      rw [pickSmallest_cons, if_neg (Int64.not_lt.2 (hmin p (List.mem_cons_self ..)))]
      exact ih (fun q hq => hmin q (List.mem_cons_of_mem _ hq)) (i + 1)

theorem pickDriver_eq {ps : List Plan} {k : Nat} {p : Plan} (hp : ps[k]? = some p) :
    pickDriver store ps k .never = pickSmallest store 0 ps k (p.estimatedSize store) .never := by
  simp only [pickDriver, hp, bind, StateT.bind, cost_never, estimatedSize]

/-- The driver chosen is the smallest of all operands. -/
theorem pickDriver_smallest {ps : List Plan} {k : Nat} (hk : k < ps.length) :
    ∃ p, ps[(pickDriver store ps k .never).1]? = some p ∧
      ∀ q ∈ ps, p.estimatedSize store ≤ q.estimatedSize store := by
  have hp : ps[k]? = some ps[k] := List.getElem?_eq_getElem hk
  rw [pickDriver_eq hp]
  rcases pickSmallest_smallest ps 0 k (ps[k].estimatedSize store) with
    ⟨hb, hmin⟩ | ⟨j, p, hj, hb, -, hmin⟩
  · exact ⟨_, by rw [hb, hp], hmin⟩
  · exact ⟨p, by rw [hb, Nat.zero_add, hj], hmin⟩

/-- A driver that is the smallest goes on to drive. -/
theorem pickDriver_keeps {ps : List Plan} {k : Nat} {p : Plan} (hp : ps[k]? = some p)
    (hmin : ∀ q ∈ ps, p.estimatedSize store ≤ q.estimatedSize store) :
    (pickDriver store ps k .never).1 = k := by
  rw [pickDriver_eq hp, pickSmallest_keeps hmin]

/-! ## Intersections to which their rule does not apply -/

/-- The rule for intersections leaves this one as it is. -/
structure Joined (store : QuadStore) (ordered : Bool) (ps : List Plan) (k : Nat) : Prop where
  several : 2 ≤ ps.length
  driver_lt : k < ps.length
  notNull : ∀ p ∈ ps, p.isNull = false
  conjuncts_eq : ∀ p ∈ ps, p.conjuncts = [p]
  restricts : ∀ i p, ps[i]? = some p → p.isAll = true → ordered = true ∧ i = k
  smallest : ordered = false → ∀ p, ps[k]? = some p →
    ∀ q ∈ ps, p.estimatedSize store ≤ q.estimatedSize store

theorem ne_and_of_conjuncts_eq {p : Plan} (hp : p.conjuncts = [p]) (ps : List Plan) (k : Nat) :
    p ≠ .and ps k := by
  rintro rfl
  have hsize := congrArg sizeOf (show ps = [Plan.and ps k] from hp)
  simp only [List.cons.sizeOf_spec, List.nil.sizeOf_spec, Plan.and.sizeOf_spec] at hsize
  omega

theorem flattenIntersection_closed {ps : List Plan} (hp : ∀ p ∈ ps, p.conjuncts = [p]) (k : Nat) :
    ∀ (i : Nat) (acc : Intersection), acc.operands.length = i →
      flattenIntersection k i (ps.map (·, false)) acc =
        ⟨acc.operands ++ ps, if i ≤ k ∧ k < i + ps.length then k else acc.driver, acc.changed⟩ := by
  induction ps with
  | nil =>
      intro i acc _
      rw [if_neg (by simp), List.append_nil]
      rfl
  | cons p ps ih =>
      intro i acc hacc
      have hone : flattenIntersection k i ((p, false) :: ps.map (·, false)) acc =
          flattenIntersection k (i + 1) (ps.map (·, false))
            ⟨acc.operands ++ [p], if i = k then acc.operands.length else acc.driver,
              acc.changed⟩ := by
        have hp : p.conjuncts = [p] := hp p (List.mem_cons_self ..)
        cases p with
        | and qs j => exact absurd rfl (ne_and_of_conjuncts_eq hp qs j)
        | _ => simp [flattenIntersection]
      rw [List.map_cons, hone,
        ih (fun q hq => hp q (List.mem_cons_of_mem _ hq)) (i + 1) _ (by simp [hacc])]
      simp only [List.append_assoc, List.singleton_append, List.length_cons, hacc,
        Intersection.mk.injEq, true_and, and_true]
      split <;> split <;> (try split) <;> omega

theorem dropAll_closed {k : Nat} {ps : List Plan} :
    ∀ (i : Nat) (acc : Intersection),
      (∀ j p, ps[j]? = some p → p.isAll = true → ordered = true ∧ i + j = k) →
      acc.operands.length = i →
      dropAll ordered k i ps acc =
        ⟨acc.operands ++ ps, if i ≤ k ∧ k < i + ps.length then k else acc.driver, acc.changed⟩ := by
  induction ps with
  | nil =>
      intro i acc _ _
      rw [if_neg (by simp), List.append_nil]
      rfl
  | cons p ps ih =>
      intro i acc hp hacc
      have hkept : (p.isAll && !(ordered && i = k)) = false := by
        cases hall : p.isAll with
        | false => rfl
        | true =>
            obtain ⟨ho, hk⟩ := hp 0 p rfl hall
            simp [ho, ← hk]
      rw [dropAll, hkept, if_neg (by simp), ih (i + 1) _ (fun j q hq hall => ?_) (by simp [hacc])]
      · simp only [List.append_assoc, List.singleton_append, List.length_cons, hacc,
          Intersection.mk.injEq, true_and, and_true]
        split <;> split <;> (try split) <;> omega
      · have := hp (j + 1) q hq hall
        exact ⟨this.1, by omega⟩

/-- The outcomes of the rule for intersections, with the driver that it chooses. -/
theorem joinPassed_cases (store : QuadStore) (ordered : Bool) (driver : Nat)
    (xs : List Simplified) :
    let x := flattenIntersection driver 0 xs ⟨[], 0, false⟩
    let y := simplifyIntersection ordered x
    let best := if ordered then y.driver else (pickDriver store y.operands y.driver .never).1
    ((x.operands = [] ∨ ∃ q ∈ x.operands, q.isNull = true) ∧
        joinPassed store ordered driver xs = (.null, true)) ∨
      ((x.operands ≠ [] ∧ ∀ q ∈ x.operands, q.isNull = false) ∧
        ((∃ p, y.operands = [p] ∧ joinPassed store ordered driver xs = (p, true)) ∨
          (y.operands.length ≠ 1 ∧ joinPassed store ordered driver xs =
            (.and y.operands best, y.changed || best ≠ y.driver || best ≠ driver)))) := by
  unfold joinPassed simplifyAnd
  dsimp only
  generalize flattenIntersection driver 0 xs ⟨[], 0, false⟩ = x
  generalize simplifyIntersection ordered x = y
  by_cases hnull : x.operands.isEmpty || x.operands.any isNull
  · rw [if_pos hnull]
    exact .inl ⟨by simpa using hnull, rfl⟩
  · rw [if_neg hnull]
    refine .inr ⟨by simpa using hnull, ?_⟩
    obtain ⟨operands, k, c⟩ := y
    match operands, ordered with
    | [p], _ => exact .inl ⟨p, rfl, rfl⟩
    | [], true | [], false | _ :: _ :: _, true => exact .inr ⟨by simp, rfl⟩
    | p :: q :: ps, false => exact .inr ⟨by simp, rfl⟩

/-- To a joined intersection the rule does not apply. -/
theorem Joined.kept {ps : List Plan} {k : Nat} (h : Joined store ordered ps k) :
    joinPassed store ordered k (ps.map (·, false)) = (.and ps k, false) := by
  have hflat : flattenIntersection k 0 (ps.map (·, false)) ⟨[], 0, false⟩ = ⟨ps, k, false⟩ := by
    rw [flattenIntersection_closed h.conjuncts_eq k 0 ⟨[], 0, false⟩ rfl]
    simp [h.driver_lt]
  have hdrop : dropAll ordered k 0 ps ⟨[], 0, false⟩ = ⟨ps, k, false⟩ := by
    rw [dropAll_closed 0 ⟨[], 0, false⟩
      (fun j p hp hall => by simpa using h.restricts j p hp hall) rfl]
    simp [h.driver_lt]
  have hlt := h.driver_lt
  have hne : ps.isEmpty = false := by
    cases ps with
    | nil => simp at hlt
    | cons p ps => rfl
  have hmin : min k (ps.length - 1) = k := by omega
  have hsimple : simplifyIntersection ordered ⟨ps, k, false⟩ = ⟨ps, k, false⟩ := by
    have hseveral : ¬ ps.length ≤ 1 := by have := h.several; omega
    simp [simplifyIntersection, hseveral, hdrop, hne, hmin]
  have hbest : (if ordered then k else (pickDriver store ps k .never).1) = k := by
    cases ho : ordered with
    | true => rfl
    | false =>
        have hk : ps[k]? = some ps[k] := List.getElem?_eq_getElem hlt
        simpa using pickDriver_keeps hk (h.smallest ho _ hk)
  have hcases := joinPassed_cases store ordered k (ps.map (·, false))
  simp only [hflat, hsimple, hbest] at hcases
  rcases hcases with ⟨hnull | ⟨q, hq, hnull⟩, -⟩ | ⟨-, ⟨p, hone, -⟩ | ⟨-, heq⟩⟩
  · simp [hnull] at hne
  · simp [h.notNull q hq] at hnull
  · have := h.several
    simp [hone] at this
  · simpa using heq

/-! ## Unions to which their rule does not apply -/

def branches : Plan → List Plan
  | .null => []
  | .or ps => ps
  | p => [p]

/-- The rule for unions leaves this one as it is. -/
structure United (ps : List Plan) : Prop where
  several : 2 ≤ ps.length
  branches_eq : ∀ p ∈ ps, p.branches = [p]

theorem ne_or_of_branches_eq {p : Plan} (hp : p.branches = [p]) (ps : List Plan) :
    p ≠ .or ps := by
  rintro rfl
  have hsize := congrArg sizeOf (show ps = [Plan.or ps] from hp)
  simp only [List.cons.sizeOf_spec, List.nil.sizeOf_spec, Plan.or.sizeOf_spec] at hsize
  omega

theorem branches_flatten (xs : List Simplified) :
    (flattenUnion xs).1 = xs.flatMap fun x => x.1.branches := by
  induction xs with
  | nil => rfl
  | cons x xs ih =>
      obtain ⟨p, c⟩ := x
      simp only [flattenUnion, List.flatMap_cons, ← ih]
      cases p <;> rfl

theorem flattenUnion_closed {ps : List Plan} (hp : ∀ p ∈ ps, p.branches = [p]) :
    flattenUnion (ps.map (·, false)) = (ps, false) := by
  induction ps with
  | nil => rfl
  | cons p ps ih =>
      have hone : p.branches = [p] := hp p (List.mem_cons_self ..)
      simp only [List.map_cons, flattenUnion, ih fun q hq => hp q (List.mem_cons_of_mem _ hq)]
      cases p with
      | null => cases hone
      | or qs => exact absurd rfl (ne_or_of_branches_eq hone qs)
      | _ => rfl

theorem United.kept {ps : List Plan} (h : United ps) :
    simplifyOr (ps.map (·, false)) = (.or ps, false) := by
  have hseveral := h.several
  unfold simplifyOr
  rw [flattenUnion_closed h.branches_eq]
  match ps, hseveral with
  | _ :: _ :: _, _ => rfl

end GraphQuery.Plan
