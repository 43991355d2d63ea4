import GraphQuery.Proofs.Collect
import GraphQuery.Proofs.Optimize.Rounds

/-!
# How many passes queries need

Passes come to an end for every path, but no number of passes is enough for all paths, not even for
those whose skips can be merged. What is left
of a plan that constraints have refused is dropped one pass later, and only then does an alternative
to it come up for the next constraints. So each constraint on such alternatives takes one more pass.
-/

namespace GraphQuery

namespace Plan

variable {store : QuadStore}

/-! ## Plans that passes take apart one by one -/

/-- Each of so many passes changes the plan, and an empty literal set is left. -/
inductive Vanishes (store : QuadStore) : Nat → Plan → Prop
  | empty {handles : HandleList} : handles.isEmpty → Vanishes store 0 (.fixed handles)
  | pass {k : Nat} {p q : Plan} : p.branches = [p] → pass store false p = (q, true) →
      Vanishes store k q → Vanishes store (k + 1) p

namespace Vanishes

variable {k : Nat} {p : Plan}

theorem branches_eq (hp : p.Vanishes store k) : p.branches = [p] := by
  cases hp with
  | empty => rfl
  | pass hbranches => exact hbranches

/-- One more pass finds that there is nothing, and then a pass changes nothing. -/
theorem changesAfter (hp : p.Vanishes store k) :
    (∀ j < k + 1, Plan.changesAfter store j p = true) ∧
      Plan.changesAfter store (k + 1) p = false := by
  induction hp with
  | @empty handles hempty =>
      have hnull : Plan.pass store false (.fixed handles) = (.null, true) := if_pos hempty
      constructor
      · intro j hj
        obtain rfl : j = 0 := by omega
        exact congrArg Prod.snd hnull
      · show (Plan.pass store false (Plan.pass store false (.fixed handles)).1).2 = false
        rw [hnull]
        rfl
  | @pass k p q _ heq _ ih =>
      have hnext : ∀ j, Plan.changesAfter store (j + 1) p = Plan.changesAfter store j q := by
        intro j
        show Plan.changesAfter store j (Plan.pass store false p).1 = _
        rw [heq]
      refine ⟨fun j hj => ?_, (hnext _).trans ih.2⟩
      cases j with
      | zero => exact congrArg Prod.snd heq
      | succ j => exact (hnext j).trans (ih.1 j (by omega))

end Vanishes

/-- Literal handles that the store has values for, none of which passes a constraint. -/
structure Refused (store : QuadStore) (c : Constraint) (handles : HandleList) : Prop where
  nonempty : handles.isEmpty = false
  resolves : ∀ h ∈ handles.toList, ∃ v, store.resolve h = some v ∧ c.holds v = false

variable {c : Constraint} {handles : HandleList}

theorem Refused.tested (hc : Refused store c handles) (changed : Bool) :
    ∃ rest : HandleList, rest.isEmpty = true ∧
      simplifyConstraint store [c] (.fixed handles, changed) = (.fixed rest, true) := by
  have hall : handles.toList.all fun h => (store.resolve h).isSome := by
    refine List.all_eq_true.2 fun h hh => ?_
    obtain ⟨v, hv, -⟩ := hc.resolves h hh
    simp [hv]
  refine ⟨handles.filter (passes store [c]), ?_, if_pos hall⟩
  refine List.isEmpty_iff.2 (List.filter_eq_nil_iff.2 fun h hh => ?_)
  obtain ⟨v, hv, hrefused⟩ := hc.resolves h hh
  simp [passes, hv, hrefused]

theorem Refused.of_intern {v : Value} {h : Handle} (hi : store.intern v = some h)
    (hr : store.resolve h = some v) (hv : c.holds v = false) :
    Refused store c (.ofList ([v].filterMap store.intern)) := by
  have hone : [v].filterMap store.intern = [h] := by simp [hi]
  rw [hone]
  refine ⟨rfl, fun x hx => ⟨v, ?_, hv⟩⟩
  rw [HandleList.mem_toList_ofList, List.mem_singleton] at hx
  rw [hx, hr]

def orElse (c : Constraint) (handles : HandleList) (p : Plan) : Plan :=
  .constraint (.or [p, .fixed handles]) [c]

theorem pass_fixed (hne : handles.isEmpty = false) :
    pass store false (.fixed handles) = (.fixed handles, false) :=
  if_neg (by simp [hne])

theorem pass_orElse (hne : handles.isEmpty = false) (p : Plan) :
    pass store false (orElse c handles p) =
      simplifyConstraint store [c] (simplifyOr [pass store false p, (.fixed handles, false)]) := by
  show simplifyConstraint store [c] (pass store false (.or [p, .fixed handles])) = _
  rw [pass_or, List.map_cons, List.map_cons, List.map_nil, pass_fixed hne]

/-- An alternative to what vanishes is refused one pass later. -/
theorem Vanishes.orElse (hc : Refused store c handles) {k : Nat} {p : Plan}
    (hp : p.Vanishes store k) : (orElse c handles p).Vanishes store (k + 1) := by
  induction hp with
  | @empty none hempty =>
      have hnull : Plan.pass store false (.fixed none) = (.null, true) := if_pos hempty
      obtain ⟨rest, hrest, htested⟩ := hc.tested true
      refine .pass rfl ?_ (.empty hrest)
      rw [pass_orElse hc.nonempty, hnull]
      exact htested
  | @pass k p q _ heq hq ih =>
      refine .pass rfl ?_ ih
      rw [pass_orElse hc.nonempty, heq]
      have hopen : simplifyOr [(q, true), (.fixed handles, false)] =
          (.or [q, .fixed handles], true) := by
        have hbranches := hq.branches_eq
        unfold simplifyOr flattenUnion
        cases q with
        | null => cases hbranches
        | or qs => exact absurd rfl (ne_or_of_branches_eq hbranches qs)
        | _ => rfl
      rw [hopen]
      rfl

theorem Vanishes.iterate_orElse (hc : Refused store c handles) {k : Nat} (n : Nat) {p : Plan}
    (hp : p.Vanishes store k) : ((Plan.orElse c handles)^[n] p).Vanishes store (k + n) := by
  induction n generalizing k p with
  | zero => exact hp
  | succ n ih =>
      have := ih (hp.orElse hc)
      rwa [Nat.add_right_comm] at this

def amongNodes (handles : HandleList) : Plan :=
  .limit (.and [.all, .fixed handles] 0) 0

theorem pass_amongNodes (hne : handles.isEmpty = false) :
    pass store false (amongNodes handles) = (.and [.all, .fixed handles] 0, true) := by
  have hfixed : pass store false (.fixed handles) = (.fixed handles, false) := pass_fixed hne
  show simplifyLimit 0 (pass store true (.and [.all, .fixed handles] 0)) = _
  rw [pass_and]
  show simplifyLimit 0 (joinPassed store true 0 [(.all, false), pass store false (.fixed handles)])
    = _
  rw [hfixed]
  rfl

theorem pass_and_all (hne : handles.isEmpty = false) :
    pass store false (.and [.all, .fixed handles] 0) = (.fixed handles, true) := by
  rw [pass_and]
  show joinPassed store false 0 [(.all, false), pass store false (.fixed handles)] = _
  rw [pass_fixed hne]
  rfl

theorem changesAfter_amongNodes (hne : handles.isEmpty = false) :
    (∀ j < 2, changesAfter store j (amongNodes handles) = true) ∧
      changesAfter store 2 (amongNodes handles) = false := by
  simp only [changesAfter]
  refine ⟨fun j hj => ?_, ?_⟩
  · obtain rfl | rfl : j = 0 ∨ j = 1 := by omega
    · exact congrArg Prod.snd (pass_amongNodes hne)
    · rw [afterPasses, pass_amongNodes hne]
      exact congrArg Prod.snd (pass_and_all hne)
  · rw [afterPasses, pass_amongNodes hne, afterPasses, pass_and_all hne]
    exact congrArg Prod.snd (pass_fixed hne)

theorem vanishes_amongNodes (hc : Refused store c handles) :
    (Plan.constraint (amongNodes handles) [c]).Vanishes store 2 := by
  obtain ⟨rest, hrest, htested⟩ := hc.tested true
  refine .pass (q := .constraint (.and [.all, .fixed handles] 0) [c]) rfl ?_
    (.pass rfl ?_ (.empty hrest))
  · show simplifyConstraint store [c] (pass store false (amongNodes handles)) = _
    rw [pass_amongNodes hc.nonempty]
    rfl
  · show simplifyConstraint store [c] (pass store false (.and [.all, .fixed handles] 0)) = _
    rw [pass_and_all hc.nonempty]
    exact htested

/-- So many constraints, each but the first on an alternative to what those before it have left. -/
def refused (c : Constraint) (handles : HandleList) : Nat → Plan
  | 0 => amongNodes handles
  | n + 1 => (orElse c handles)^[n] (.constraint (amongNodes handles) [c])

theorem skipsFit_orElse {p : Plan} (hp : p.SkipsFit) : (orElse c handles p).SkipsFit := by
  have hfixed : (fixed handles).SkipsFit := skipsFit_of_eq_zero rfl
  exact selective_skipsFit.constraint.2
    (selective_skipsFit.or.2 (List.forall_mem_cons.2 ⟨hp, List.forall_mem_singleton.2 hfixed⟩))

theorem skipsFit_refused (n : Nat) : (refused c handles n).SkipsFit := by
  cases n with
  | zero => exact skipsFit_of_eq_zero rfl
  | succ n =>
      induction n with
      | zero => exact skipsFit_of_eq_zero rfl
      | succ n ih =>
          rw [refused, Function.iterate_succ_apply']
          exact skipsFit_orElse ih

theorem constraintDepth_refused (n : Nat) : (refused c handles n).constraintDepth = n := by
  have hiterate : ∀ (n : Nat) (p : Plan),
      ((orElse c handles)^[n] p).constraintDepth = p.constraintDepth + n := by
    intro n
    induction n with
    | zero => exact fun p => rfl
    | succ n ih =>
        intro p
        have hone : (orElse c handles p).constraintDepth = p.constraintDepth + 1 := by
          show max p.constraintDepth (max 0 0) + 1 = _
          omega
        rw [Function.iterate_succ_apply, ih, hone]
        omega
  cases n with
  | zero => rfl
  | succ n =>
      rw [refused, hiterate]
      show (max 0 (max 0 (max 0 0)) + 1) + n = n + 1
      omega

/-- Each constraint takes a pass, and three are made besides. -/
theorem changesAfter_refused (hc : Refused store c handles) (n : Nat) :
    (∀ j < n + 2, changesAfter store j (refused c handles n) = true) ∧
      changesAfter store (n + 2) (refused c handles n) = false := by
  cases n with
  | zero => exact changesAfter_amongNodes hc.nonempty
  | succ n =>
      have hvanishes := (vanishes_amongNodes hc).iterate_orElse hc n
      rw [show n + 1 + 2 = 2 + n + 1 by omega]
      exact hvanishes.changesAfter

end Plan

namespace Path

def retries (v : Value) (c : Constraint) : Nat → List Op
  | 0 => []
  | n + 1 => .or (.vertex [v]) :: .constrain c :: retries v c n

def refusing (v : Value) (c : Constraint) : Nat → Path
  | 0 => .mk .all [.is [v], .limit 0]
  | n + 1 => .mk .all (.is [v] :: .limit 0 :: .constrain c :: retries v c n)

theorem buildOps_retries (target : Target) (v : Value) (c : Constraint) (n : Nat) (p : Plan) :
    buildOps target {} p (retries v c n) =
      (Plan.orElse c (.ofList ([v].filterMap target.store.intern)))^[n] p := by
  induction n generalizing p with
  | zero => rw [retries, buildOps, Function.iterate_zero_apply]
  | succ n ih =>
      simp only [retries, buildOps, lower, vertex, build, ih, Function.iterate_succ_apply]
      rfl

theorem compile_refusing (store : QuadStore) (bindings : ClosureBindings) (v : Value)
    (c : Constraint) (n : Nat) :
    (refusing v c n).compile store bindings =
      Plan.refused c (.ofList ([v].filterMap store.intern)) n := by
  cases n with
  | zero => simp [refusing, compile, build, buildOps, lower, Plan.refused, Plan.amongNodes,
      Plan.ofValues]
  | succ n =>
      simp only [refusing, compile, build, buildOps, lower, buildOps_retries]
      rfl

end Path

namespace Session

/-- So many passes are enough for the paths whose skips can be merged and whose plans nest
constraints so deep, and no fewer are: one for each constraint and three besides. -/
theorem passes_suffice_iff (m : MemoryStore) (hm : m.Addressable) (hne : m.nodes ≠ [])
    (config : Config) (n : Nat) :
    (∀ path : Path, (path.compile m.toStore config.bindings).SkipsFit →
      (path.compile m.toStore config.bindings).constraintDepth ≤ n →
      ∃ plan, prepare ⟨m.toStore, { config with optimize := true }⟩ path .never =
        (.ok plan, .never)) ↔
      n + 3 ≤ config.maxPasses := by
  have hprepare : ∀ path : Path,
      prepare ⟨m.toStore, { config with optimize := true }⟩ path .never =
        (path.compile m.toStore config.bindings).normalize m.toStore config.maxPasses .never :=
    fun path => rfl
  constructor
  · intro h
    have hs := MemoryStore.coherent hm
    obtain ⟨x, hx⟩ := List.exists_mem_of_ne_nil _ hne
    obtain ⟨w, hw⟩ := hs.exists_value hx
    obtain ⟨y, hy, hv⟩ := MemoryStore.exists_intern hm hw
    have hc : Plan.Refused m.toStore (.kinds []) (.ofList ([w].filterMap m.toStore.intern)) :=
      .of_intern hy hv rfl
    obtain ⟨hbefore, hlast⟩ := Plan.changesAfter_refused hc n
    obtain ⟨plan, hplan⟩ := h (.refusing w (.kinds []) n)
      (by rw [Path.compile_refusing]; exact Plan.skipsFit_refused n)
      (by rw [Path.compile_refusing, Plan.constraintDepth_refused])
    rw [hprepare, Path.compile_refusing, Plan.normalize_eq hbefore hlast] at hplan
    by_contra hfew
    rw [if_neg (by omega)] at hplan
    cases hplan
  · intro hle path hfit hdepth
    have hstill := Plan.exists_still_of_unwrapped hdepth fun j _ =>
      (Plan.skipsFit_afterPasses hfit j).unwrapped m.toStore _ false
    obtain ⟨k, hk, hbefore, hlast⟩ := Plan.exists_first_still hstill
    refine ⟨_, (hprepare path).trans ((Plan.normalize_eq hbefore hlast _).trans (if_pos ?_))⟩
    omega

/-- The default number of passes is enough for thirteen constraints. -/
theorem thirteen_constraints_prepared :
    let path : Path := .refusing (.int 1) (.kinds [.str]) 13
    (path.compile oneNumber.toStore .first).constraintDepth = 13 ∧
      ∃ plan, prepare ⟨oneNumber.toStore, {}⟩ path .never = (.ok plan, .never) := by
  intro path
  have hdepth : (path.compile oneNumber.toStore .first).constraintDepth = 13 := by
    rw [Path.compile_refusing, Plan.constraintDepth_refused]
  have hsuffice := passes_suffice_iff oneNumber ⟨by decide +kernel, by decide +kernel⟩
    (by decide +kernel) {} 13
  have hfit : (path.compile oneNumber.toStore .first).SkipsFit := by
    rw [Path.compile_refusing]
    exact Plan.skipsFit_refused 13
  exact ⟨hdepth, hsuffice.2 (by decide) path hfit (Nat.le_of_eq hdepth)⟩

/-- Fourteen constraints need seventeen passes. The query has no results, but under the default
configuration it is not prepared. -/
theorem fourteen_constraints_diverge :
    let path : Path := .refusing (.int 1) (.kinds [.str]) 14
    collect ⟨oneNumber.toStore, { optimize := false }⟩ path none .never = (.ok [], .never) ∧
      prepare ⟨oneNumber.toStore, {}⟩ path .never = (.error (.optimizerDiverged 16), .never) := by
  intro path
  have hc : Plan.Refused oneNumber.toStore (.kinds [.str])
      (.ofList ([.int 1].filterMap oneNumber.toStore.intern)) :=
    .of_intern (h := .ofNat 0) (by decide +kernel) (by decide +kernel) rfl
  obtain ⟨hbefore, hlast⟩ := Plan.changesAfter_refused hc 14
  constructor
  · have hplan : (prepare ⟨oneNumber.toStore, { optimize := false }⟩ path .never).1 = .ok _ :=
      congrArg Except.ok (Path.compile_refusing ..)
    rw [collect_eq rfl rfl hplan]
    exact congrArg (·, Token.never) (by decide +kernel)
  · show (path.compile oneNumber.toStore .first).normalize oneNumber.toStore 16 .never = _
    rw [Path.compile_refusing, Plan.normalize_eq hbefore hlast]
    rfl

end Session

end GraphQuery
