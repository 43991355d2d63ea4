import GraphQuery.Proofs.Optimize.Pass

/-!
# Pages of arranged plans

A pass may change the order of results unless it is told that the order matters. Dropping
repetitions and skipping tell it so, and sorting hands on what it has been told. So where repetitions
are dropped first, what is sorted and skipped through after that keeps its rows in every pass, and so
does a limit on top, which is never moved. The counts of skips that are merged must not wrap around.
-/

namespace GraphQuery.Plan

variable {store : QuadStore}

/-- Results without repetitions that are only sorted and skipped through. -/
def Arranged : Plan → Prop
  | .null | .unique _ => True
  | .sort p | .skip p _ => Arranged p
  | _ => False

/-! ## Rules -/

theorem arranged_simplifyUnique (x : Simplified) : (simplifyUnique x).1.Arranged := by
  unfold simplifyUnique
  split <;> trivial

theorem Arranged.simplifySort {x : Simplified} (hx : x.1.Arranged) :
    (simplifySort x).1.Arranged := by
  unfold Plan.simplifySort
  split
  · trivial
  · exact hx
  · exact hx

theorem Arranged.simplifySkip {x : Simplified} (hx : x.1.Arranged) (n : Nat) :
    (simplifySkip n x).1.Arranged := by
  unfold Plan.simplifySkip
  split
  split
  · exact hx
  · split <;> exact hx

theorem Arranged.simplifyLimit {x : Simplified} (hx : x.1.Arranged) (n : Nat) :
    (simplifyLimit n x).1 = .limit x.1 n ∨
      (simplifyLimit n x).1 = x.1 ∧ (n = 0 ∨ x.1 = .null) := by
  obtain ⟨p, changed⟩ := x
  cases p with
  | null => exact .inr ⟨by simp [Plan.simplifyLimit, isNull], .inr rfl⟩
  | unique p | sort p | skip p m =>
      by_cases hn : n = 0
      · exact .inr ⟨by simp [Plan.simplifyLimit, hn], .inl hn⟩
      · exact .inl (by simp [Plan.simplifyLimit, hn, isNull])
  | _ => exact hx.elim

/-! ## Passes -/

/-- A pass keeps an arranged plan arranged and its rows as they are, whether or not it is told that
their order matters. -/
theorem arranged_optimize (hs : store.Coherent) :
    ∀ (p : Plan) (ordered : Bool) (t : Token), p.Arranged → p.Within store.mapless →
      p.SkipsFit → (optimize store ordered p t).1.1.Arranged ∧
        Kept store true p (optimize store ordered p t).1.1
  | .null, _, _, _, hw, _ => ⟨trivial, .refl _, tabular_of_unlimited hw, trivial⟩
  | .unique p, _, t, _, hw, hf => by
      have hp : p.Within store.unmapped := Within.mono store.mapless_le_unmapped p hw
      have htab : p.Tabular store := tabular_of_unlimited (Within.mono store.mapless_le p hw)
      exact ⟨arranged_simplifyUnique _,
        (kept_optimize hs p false true t htab hf (orderly_of_unmapped p true hp)).unique⟩
  | .sort p, ordered, t, hp, hw, hf =>
      have ⟨harranged, hkept⟩ := arranged_optimize hs p ordered t hp hw hf
      ⟨harranged.simplifySort, hkept.sort hs⟩
  | .skip p n, _, t, hp, hw, hf =>
      have ⟨harranged, hkept⟩ := arranged_optimize hs p true t hp hw hf.of_skip
      ⟨harranged.simplifySkip n, hkept.skip (hf.skippable_optimize true t)⟩

/-- The plan shows the first `n` rows of a table, or all if `n` is zero, through a limit on top of
an arranged plan. -/
structure Pages (store : QuadStore) (T : Table) (n : Nat) (p q : Plan) : Prop where
  arranged : q.Arranged
  within : q.Within store.mapless
  table : q.table store = T
  shape : p = .limit q n ∨ p = q ∧ (n = 0 ∨ q = .null)

/-- What a pass makes of the arranged plan shows the same page, if the limit is where it may be. -/
theorem Pages.pass (hs : store.Coherent) {T : Table} {n : Nat} {p q : Plan}
    (h : Pages store T n p q) (hfit : q.SkipsFit) (ordered : Bool) (t : Token) {r : Plan}
    (hr : r = .limit (Plan.optimize store ordered q t).1.1 n ∨
      r = (Plan.optimize store ordered q t).1.1 ∧
        (n = 0 ∨ (Plan.optimize store ordered q t).1.1 = .null)) :
    ∃ q', Pages store T n r q' ∧ q'.SkipsFit := by
  obtain ⟨harranged, hkept⟩ := arranged_optimize hs q ordered t h.arranged h.within hfit
  obtain ⟨hwithin, htotal⟩ := (tidy_optimize store q ordered t _ h.within (Nat.le_refl _)).holds
  exact ⟨_, ⟨harranged, hwithin, hkept.same.eq.symm.trans h.table, hr⟩,
    Nat.lt_of_le_of_lt htotal hfit⟩

theorem Pages.optimize (hs : store.Coherent) {T : Table} {n : Nat} {p q : Plan}
    (h : Pages store T n p q) (hfit : q.SkipsFit) (t : Token) :
    ∃ q', Pages store T n (Plan.optimize store false p t).1.1 q' ∧ q'.SkipsFit := by
  rcases h.shape with rfl | ⟨rfl, hshape⟩
  · have harranged := (arranged_optimize hs q true t h.arranged h.within hfit).1
    exact h.pass hs hfit true t (harranged.simplifyLimit n)
  · refine h.pass hs hfit false t (.inr ⟨rfl, hshape.imp_right ?_⟩)
    rintro rfl
    rfl

/-- Passes until one changes nothing keep the page. -/
theorem Pages.normalize (hs : store.Coherent) {T : Table} {n : Nat} {p q r : Plan} {passes : Nat}
    {t t' : Token} (h : Pages store T n p q) (hfit : q.SkipsFit)
    (hnormal : Plan.normalize store passes p t = (.ok r, t')) : ∃ q', Pages store T n r q' := by
  obtain ⟨q', hq', -⟩ := passesLeft_keeps (P := fun p => ∃ q, Pages store T n p q ∧ q.SkipsFit)
    (fun _ t ⟨_, h, hfit⟩ => h.optimize hs hfit t) hnormal ⟨q, h, hfit⟩
  exact ⟨q', hq'⟩

end GraphQuery.Plan
