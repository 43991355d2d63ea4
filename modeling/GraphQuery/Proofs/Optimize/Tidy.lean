import GraphQuery.Proofs.Optimize.AllNodes

/-!
# What a pass makes of the text of a plan

What a plan has if and only if its operands have it, every rule keeps. So a pass adds no limit, no
callback and no literal handle to a plan, and the skips along a branch add up to no more than before.
It leaves no empty intersection where a rule could open it.
-/

namespace GraphQuery.Plan

variable {store : QuadStore} {A : Allowance} {P : Plan → Prop}

/-- With a property, and without an empty intersection that a rule could open. -/
structure Tidy (P : Plan → Prop) (p : Plan) : Prop where
  holds : P p
  solid : p.Solid

theorem Tidy.mono {Q : Plan → Prop} {p : Plan} (hp : p.Tidy P) (h : P p → Q p) : p.Tidy Q :=
  ⟨h hp.holds, hp.solid⟩

/-! ## The rules -/

section Rules

variable {x : Simplified}

section

variable (hP : Inherited P)

include hP

theorem tidy_null : Tidy P .null :=
  ⟨hP.null, trivial⟩

theorem tidy_simplifyNot {forbidden whole : Simplified} (hf : forbidden.1.Tidy P)
    (hw : whole.1.Tidy P) : (simplifyNot forbidden whole).1.Tidy P := by
  obtain ⟨f, c⟩ := forbidden
  obtain ⟨w, c'⟩ := whole
  unfold simplifyNot
  dsimp only
  split
  · exact hw
  · exact ⟨hP.not.2 ⟨hf.holds, hw.holds⟩, trivial⟩

theorem tidy_simplifyUnique (hx : x.1.Tidy P) : (simplifyUnique x).1.Tidy P := by
  unfold simplifyUnique
  split
  · exact tidy_null hP
  · exact hx
  · exact ⟨hP.unique.2 hx.holds, trivial⟩

theorem tidy_simplifySave (names : List String) (hx : x.1.Tidy P) :
    (simplifySave names x).1.Tidy P := by
  obtain ⟨p, c⟩ := x
  unfold simplifySave
  dsimp only
  split
  · exact hx
  · split
    · exact ⟨hP.save.2 (hP.save.1 hx.holds), trivial⟩
    · exact ⟨hP.save.2 hx.holds, trivial⟩

theorem tidy_simplifySort (hx : x.1.Tidy P) : (simplifySort x).1.Tidy P := by
  unfold simplifySort
  split
  · exact tidy_null hP
  · exact hx
  · exact ⟨hP.sort.2 hx.holds, trivial⟩

theorem tidy_simplifyStep (fromEnd toEnd : Direction) (names : List String)
    {via labels : Option Simplified} (hx : x.1.Tidy P) (hv : ∀ y ∈ via, y.1.Tidy P)
    (hl : ∀ y ∈ labels, y.1.Tidy P) :
    (simplifyStep fromEnd toEnd names x via labels).1.Tidy P := by
  have hmap : ∀ {z : Option Simplified}, (∀ y ∈ z, y.1.Tidy P) → ∀ p ∈ z.map Prod.fst, P p := by
    intro z hz p hp
    obtain ⟨y, hy, rfl⟩ := Option.map_eq_some_iff.1 hp
    exact (hz y hy).holds
  unfold simplifyStep
  split
  · exact tidy_null hP
  · exact ⟨hP.step.2 ⟨hx.holds, hmap hv, hmap hl⟩, trivial⟩

theorem tidy_flattenUnion {branches : List Simplified} (hb : ∀ x ∈ branches, x.1.Tidy P) :
    ∀ p ∈ (flattenUnion branches).1, p.Tidy P := by
  induction branches with
  | nil => simp [flattenUnion]
  | cons x rest ih =>
      obtain ⟨p, c⟩ := x
      have hrest := ih fun y hy => hb y (List.mem_cons_of_mem _ hy)
      have hp : p.Tidy P := hb _ (List.mem_cons_self ..)
      intro q hq
      unfold flattenUnion at hq
      simp only at hq
      split at hq
      · exact hrest q hq
      · rcases List.mem_append.1 hq with hq | hq
        · exact ⟨hP.or.1 hp.holds q hq, allSolid_iff.1 hp.solid q hq⟩
        · exact hrest q hq
      · rcases List.mem_cons.1 hq with rfl | hq
        · exact hp
        · exact hrest q hq

theorem tidy_simplifyOr {branches : List Simplified} (hb : ∀ x ∈ branches, x.1.Tidy P) :
    (simplifyOr branches).1.Tidy P := by
  have hflat := tidy_flattenUnion hP hb
  unfold simplifyOr
  split
  · exact tidy_null hP
  · rename_i p _ heq
    exact hflat p (by rw [heq]; exact List.mem_singleton_self p)
  · rename_i ps _ _ _ heq
    rw [heq] at hflat
    exact ⟨hP.or.2 fun p hp => (hflat p hp).holds, allSolid_iff.2 fun p hp => (hflat p hp).solid⟩

theorem tidy_opened {xs : List Simplified} (hx : ∀ x ∈ xs, x.1.Tidy P) :
    ∀ p ∈ opened xs, p.Tidy P := by
  intro p hp
  obtain ⟨x, hm, hp⟩ := List.mem_flatMap.1 hp
  have hx := hx x hm
  generalize x.1 = q at hx hp
  cases q with
  | and ps k =>
      obtain ⟨hw, -, hs⟩ := hx
      exact ⟨hP.and.1 hw p hp, allSolid_iff.1 hs p hp⟩
  | _ => exact List.mem_singleton.1 hp ▸ hx

omit hP in
theorem simplifyIntersection_ne_nil {ordered : Bool} {x : Intersection} (hx : x.operands ≠ []) :
    (simplifyIntersection ordered x).operands ≠ [] := by
  unfold simplifyIntersection
  split
  · exact hx
  · dsimp only
    split
    · simp
    · rename_i hne
      simpa using hne

theorem tidy_simplifyAnd {ordered : Bool} {driver : Nat} {xs : List Simplified}
    (hx : ∀ x ∈ xs, x.1.Tidy P) (t : Token) :
    (simplifyAnd store ordered driver xs t).1.1.Tidy P := by
  have hops := operands_flatten driver 0 xs ⟨[], 0, false⟩
  rw [List.nil_append] at hops
  have hopened : ∀ p ∈ (flattenIntersection driver 0 xs ⟨[], 0, false⟩).operands, p.Tidy P :=
    hops ▸ tidy_opened hP hx
  have hkept : ∀ p ∈ (simplifyIntersection ordered
      (flattenIntersection driver 0 xs ⟨[], 0, false⟩)).operands, p.Tidy P := by
    intro p hp
    rcases mem_of_mem_simplifyIntersection hp with hp | rfl
    · exact hopened p hp
    · exact ⟨hP.all, trivial⟩
  rcases simplifyAnd_cases store ordered driver xs t with
    ⟨hnull, -⟩ | ⟨⟨hne, -⟩, hone | ⟨best, hand, -⟩⟩
  · rw [hnull]
    exact tidy_null hP
  · exact hkept _ (hone ▸ List.mem_singleton_self _)
  · rw [hand]
    exact ⟨hP.and.2 fun p hp => (hkept p hp).holds,
      simplifyIntersection_ne_nil hne, allSolid_iff.2 fun p hp => (hkept p hp).solid⟩

/-- An operator that holds more than its operand needs to have the property itself. -/
theorem tidy_simplifyRecursive {morphism : Plan} {maxDepth : Nat} {depthNames : List String}
    {bindings : ClosureBindings} (hx : P (.recursive x.1 morphism maxDepth depthNames bindings)) :
    (simplifyRecursive morphism maxDepth depthNames bindings x).1.Tidy P := by
  unfold simplifyRecursive
  split
  · exact tidy_null hP
  · exact ⟨hx, trivial⟩

end

/-- A limit needs to have the property itself, and to keep it when it is merged with another. -/
theorem tidy_simplifyLimit {n : Nat} (hx : x.1.Tidy P) (hn : n ≠ 0 → P (.limit x.1 n))
    (hmerge : ∀ p m, P (.limit (.limit p m) n) → P (.limit p (if m = 0 then n else min m n))) :
    (simplifyLimit n x).1.Tidy P := by
  obtain ⟨p, c⟩ := x
  unfold simplifyLimit
  dsimp only
  split
  · exact hx
  · rename_i hkept
    have hlimit := hn fun hz => hkept (by simp [hz])
    split
    · exact ⟨hmerge _ _ hlimit, trivial⟩
    · exact ⟨hlimit, trivial⟩

theorem tidy_simplifySkip {n : Nat} (hx : x.1.Tidy P) (hn : n ≠ 0 → P (.skip x.1 n))
    (hmerge : ∀ p m, x.1 = .skip p m → P (.skip (.skip p m) n) →
      P (.skip p ((m + n) % UInt64.size))) :
    (simplifySkip n x).1.Tidy P := by
  obtain ⟨p, c⟩ := x
  unfold simplifySkip
  dsimp only
  split
  · exact hx
  · rename_i hkept
    have hskip := hn fun hz => hkept (by simp [hz])
    split
    · exact ⟨hmerge _ _ rfl hskip, trivial⟩
    · exact ⟨hskip, trivial⟩

theorem tidy_simplifyConstraint (hP : Selective P) (constraints : List Constraint)
    (hx : x.1.Tidy P) : (simplifyConstraint store constraints x).1.Tidy P := by
  unfold simplifyConstraint
  split
  · exact ⟨hP.constraint.2 (hP.constraint.1 hx.holds), trivial⟩
  · split
    · exact ⟨hP.fixed _ _ hx.holds, trivial⟩
    · exact ⟨hP.constraint.2 hx.holds, trivial⟩
  · exact ⟨hP.constraint.2 hx.holds, trivial⟩

theorem within_limit_limit {p : Plan} {m n : Nat} (hp : (Plan.limit (.limit p m) n).Within A) :
    (Plan.limit p (if m = 0 then n else min m n)).Within A := by
  obtain ⟨hn, hm, hp⟩ := hp
  refine ⟨?_, hp⟩
  split
  · exact hn
  · rcases Nat.le_total m n with hle | hle
    · rwa [Nat.min_eq_left hle]
    · rwa [Nat.min_eq_right hle]

end Rules

/-! ## Passes -/

/-- Holds only what is allowed, and along a branch no skips that add up to more than `b`. -/
def Thrifty (A : Allowance) (b : Nat) (p : Plan) : Prop :=
  p.Within A ∧ p.skipTotal ≤ b

theorem selective_thrifty (A : Allowance) (b : Nat) : Selective (Thrifty A b) :=
  (hereditary_within A).toSelective.inter (selective_skipTotal_le b)

theorem inherited_thrifty (A : Allowance) (b : Nat) : Inherited (Thrifty A b) :=
  (selective_thrifty A b).toInherited

mutual

theorem tidy_optimize (store : QuadStore) :
    ∀ (p : Plan) (ordered : Bool) (t : Token) (b : Nat), p.Within A → p.skipTotal ≤ b →
      (optimize store ordered p t).1.1.Tidy (Thrifty A b)
  | .fixed handles, ordered, t, b, hp, hb => by
      show (if handles.isEmpty then (Plan.null, true) else (.fixed handles, false)).1.Tidy _
      split
      · exact tidy_null (inherited_thrifty A b)
      · exact ⟨⟨hp, hb⟩, trivial⟩
  | .null, _, _, b, _, _ | .all, _, _, b, _, _ | .input, _, _, b, _, _ =>
      ⟨⟨trivial, Nat.zero_le b⟩, trivial⟩
  | .and operands primary, ordered, t, b, hp, hb =>
      tidy_simplifyAnd (inherited_thrifty A b)
        (tidy_optimizeOperands store _ _ _ operands t b hp (heightAll_le_iff.1 hb)) _
  | .or operands, ordered, t, b, hp, hb =>
      tidy_simplifyOr (inherited_thrifty A b)
        (tidy_optimizeAll store ordered operands t b hp (heightAll_le_iff.1 hb))
  | .not forbidden whole, ordered, t, b, hp, hb =>
      tidy_simplifyNot (inherited_thrifty A b)
        (tidy_optimize store forbidden false t b hp.1 (Nat.max_le.1 hb).1)
        (tidy_optimize store whole ordered _ b hp.2 (Nat.max_le.1 hb).2)
  | .unique p, _, t, b, hp, hb =>
      tidy_simplifyUnique (inherited_thrifty A b) (tidy_optimize store p true t b hp hb)
  | .save p names, ordered, t, b, hp, hb =>
      tidy_simplifySave (inherited_thrifty A b) names (tidy_optimize store p ordered t b hp hb)
  | .limit p n, _, t, b, hp, hb =>
      have hx := tidy_optimize store p true t b hp.2 hb
      tidy_simplifyLimit hx (fun _ => ⟨⟨hp.1, hx.holds.1⟩, hx.holds.2⟩)
        fun _ _ hq => ⟨within_limit_limit hq.1, hq.2⟩
  | .skip p n, _, t, b, hp, hb => by
      rw [skipTotal_skip] at hb
      have hx := tidy_optimize store p true t (b - n) hp (Nat.le_sub_of_add_le hb)
      refine tidy_simplifySkip (hx.mono fun h => ⟨h.1, Nat.le_trans h.2 (Nat.sub_le b n)⟩)
        (fun _ => ⟨hx.holds.1, ?_⟩) fun q m _ hq => ⟨hq.1, ?_⟩
      · have hn : n ≤ b := by omega
        exact Nat.add_le_of_le_sub hn hx.holds.2
      · -- The sum of the counts wraps around at worst.
        have hcount := hq.2
        rw [skipTotal_skip, skipTotal_skip] at hcount
        rw [skipTotal_skip]
        have hwrapped := Nat.mod_le (m + n) UInt64.size
        omega
  | .sort p, ordered, t, b, hp, hb =>
      tidy_simplifySort (inherited_thrifty A b) (tidy_optimize store p ordered t b hp hb)
  | .step source fromEnd toEnd via names labels, ordered, t, b, hp, hb => by
      obtain ⟨hs, hb⟩ := Nat.max_le.1 hb
      obtain ⟨hv, hl⟩ := Nat.max_le.1 hb
      exact tidy_simplifyStep (inherited_thrifty A b) fromEnd toEnd names
        (tidy_optimize store source ordered t b hp.1 hs)
        (tidy_optimizeOption store via _ b hp.2.1 (heightOption_le_iff.1 hv))
        (tidy_optimizeOption store labels _ b hp.2.2 (heightOption_le_iff.1 hl))
  | .filter p test, ordered, t, b, hp, hb =>
      have hx := (tidy_optimize store p ordered t b hp.2 hb).holds
      ⟨⟨⟨hp.1, hx.1⟩, hx.2⟩, trivial⟩
  | .map p f, ordered, t, b, hp, hb =>
      have hx := (tidy_optimize store p ordered t b hp.2 hb).holds
      ⟨⟨⟨hp.1, hx.1⟩, hx.2⟩, trivial⟩
  | .constraint p cs, ordered, t, b, hp, hb =>
      tidy_simplifyConstraint (selective_thrifty A b) cs (tidy_optimize store p ordered t b hp hb)
  | .recursive p morphism maxDepth depthNames bindings, _, t, b, hp, hb =>
      have hx := (tidy_optimize store p true t b hp.1 hb).holds
      tidy_simplifyRecursive (inherited_thrifty A b) ⟨⟨hx.1, hp.2⟩, hx.2⟩

theorem tidy_optimizeOperands (store : QuadStore) (ordered : Bool) (driver : Nat) :
    ∀ (i : Nat) (ps : List Plan) (t : Token) (b : Nat), WithinAll A ps →
      (∀ p ∈ ps, p.skipTotal ≤ b) →
        ∀ x ∈ (optimizeOperands store ordered driver i ps t).1, x.1.Tidy (Thrifty A b)
  | _, [], _, _, _, _, x, hx => by cases hx
  | i, p :: ps, t, b, hp, hb, x, hx => by
      obtain ⟨hbp, hb⟩ := List.forall_mem_cons.1 hb
      rcases List.mem_cons.1 hx with rfl | hx
      · exact tidy_optimize store p _ t b hp.1 hbp
      · exact tidy_optimizeOperands store ordered driver (i + 1) ps _ b hp.2 hb x hx

theorem tidy_optimizeAll (store : QuadStore) (ordered : Bool) :
    ∀ (ps : List Plan) (t : Token) (b : Nat), WithinAll A ps → (∀ p ∈ ps, p.skipTotal ≤ b) →
      ∀ x ∈ (optimizeAll store ordered ps t).1, x.1.Tidy (Thrifty A b)
  | [], _, _, _, _, x, hx => by cases hx
  | p :: ps, t, b, hp, hb, x, hx => by
      obtain ⟨hbp, hb⟩ := List.forall_mem_cons.1 hb
      rcases List.mem_cons.1 hx with rfl | hx
      · exact tidy_optimize store p _ t b hp.1 hbp
      · exact tidy_optimizeAll store ordered ps _ b hp.2 hb x hx

theorem tidy_optimizeOption (store : QuadStore) :
    ∀ (p : Option Plan) (t : Token) (b : Nat), WithinOption A p → (∀ q ∈ p, q.skipTotal ≤ b) →
      ∀ x ∈ (optimizeOption store p t).1, x.1.Tidy (Thrifty A b)
  | none, _, _, _, _, x, hx => by cases hx
  | some p, t, b, hp, hb, x, hx => by
      obtain rfl : (optimize store false p t).1 = x := Option.some.inj hx
      exact tidy_optimize store p false t b hp (hb p rfl)

end

/-- A pass adds nothing that was not allowed. -/
theorem within_optimize {p : Plan} (hp : p.Within A) (ordered : Bool) (t : Token) :
    (optimize store ordered p t).1.1.Within A :=
  (tidy_optimize store p ordered t _ hp (Nat.le_refl _)).holds.1

/-- What a pass makes of the operand of a skip can be merged with it. -/
theorem SkipsFit.skippable_optimize {p : Plan} {n : Nat} (hfit : (Plan.skip p n).SkipsFit)
    (ordered : Bool) (t : Token) :
    (optimize store ordered p t).1.1.Skippable n := by
  have hle := (tidy_optimize store p ordered t _ p.within_anything (Nat.le_refl _)).holds.2
  have htotal : p.skipTotal + n < UInt64.size := hfit
  exact skippable_of_fit (by omega)

/-- If the token does not trip, a pass is made; the last one has changed nothing. -/
theorem passesLeft_succ (passes left : Nat) (p : Plan) (t : Token) :
    passesLeft store passes (left + 1) p t =
      match t.check with
      | (some e, t) => (.error e, t)
      | (none, t) =>
          if (optimize store false p t).1.2 then
            passesLeft store passes left (optimize store false p t).1.1 (optimize store false p t).2
          else (.ok (optimize store false p t).1.1, (optimize store false p t).2) := by
  simp only [passesLeft, bind, StateT.bind]
  rcases t.check with ⟨_ | e, t⟩
  · rcases ho : optimize store false p t with ⟨⟨q, changed⟩, t'⟩
    simp only [StateT.bind, ho]
    cases changed with
    | true => rfl
    | false => rfl
  · rfl

/-- What every pass keeps, passes until one changes nothing keep. -/
theorem passesLeft_keeps {P : Plan → Prop}
    (hP : ∀ p t, P p → P (optimize store false p t).1.1) {passes : Nat} :
    ∀ {left : Nat} {p q : Plan} {t t' : Token},
      passesLeft store passes left p t = (.ok q, t') → P p → P q
  | 0, p, q, t, t', h, _ => by cases h
  | left + 1, p, q, t, t', h, hp => by
      rw [passesLeft_succ] at h
      split at h
      · cases h
      · rename_i t₁ _
        split at h
        · exact passesLeft_keeps hP h (hP p t₁ hp)
        · cases h
          exact hP p t₁ hp

theorem within_normalize {passes : Nat} {p q : Plan} {t t' : Token} (hp : p.Within A)
    (h : normalize store passes p t = (.ok q, t')) : q.Within A :=
  passesLeft_keeps (P := Within A) (fun _ t hp => within_optimize hp false t) h hp

end GraphQuery.Plan
