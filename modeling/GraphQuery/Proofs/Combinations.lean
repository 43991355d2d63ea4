import GraphQuery.Proofs.Bindings
import Mathlib.Data.List.Lex

/-!
# The order of combinations

The wheels of a counter stand at positions, and a turn leads to the least positions above the
present ones in lexicographic order. So a run of turns from the start shows every choice of
positions once, in ascending order, and a run over several lists may count runs over some of them as
one list.
-/

namespace GraphQuery

namespace Combinations

open List (Forall₂)

variable {ws vs : List Wheel} {c d : Combinations} {sets : List (List Tags)} {p : List Nat}

def positions (c : Combinations) : List Nat :=
  c.wheels.map Wheel.position

def Fits (p : List Nat) (sets : List (List Tags)) : Prop :=
  Forall₂ (fun i xs => i < xs.length) p sets

def run (c : Combinations) : List Combinations :=
  match _h : c.advance with
  | none => [c]
  | some d => c :: run d
termination_by c.remaining
decreasing_by exact remaining_advance _h

/-! ## One turn -/

theorem Valid.fits (hv : Valid ws) : Fits (ws.map Wheel.position) (ws.map Wheel.sets) := by
  rw [Fits, List.forall₂_map_left_iff, List.forall₂_map_right_iff]
  exact List.forall₂_same.2 hv

theorem cons_le_cons_iff {i j : Nat} {q : List Nat} :
    i :: p ≤ j :: q ↔ i < j ∨ i = j ∧ p ≤ q := by
  have hcons := @List.cons_lt_cons_iff Nat _ i j p q
  rw [le_iff_lt_or_eq, hcons, le_iff_lt_or_eq, List.cons.injEq, and_or_left, or_assoc]

theorem reset_le (hp : Fits p (ws.map Wheel.sets)) :
    (ws.map Wheel.reset).map Wheel.position ≤ p := by
  induction ws generalizing p with
  | nil =>
      rw [List.forall₂_nil_right_iff.1 hp]
      exact le_rfl
  | cons w ws ih =>
      obtain ⟨i, q, -, hq, rfl⟩ := List.forall₂_cons_right_iff.1 hp
      simp only [List.map_cons, cons_le_cons_iff, Wheel.reset]
      exact (Nat.eq_zero_or_pos i).symm.imp_right fun hi => ⟨hi.symm, ih hq⟩

/-- Wheels turn exactly if there are positions above theirs, and then to the least of them. -/
theorem lt_iff_advanceWheels (hv : Valid ws) (hp : Fits p (ws.map Wheel.sets)) :
    ws.map Wheel.position < p ↔
      ∃ vs, advanceWheels ws = some vs ∧ vs.map Wheel.position ≤ p := by
  induction ws generalizing p with
  | nil =>
      obtain rfl := List.forall₂_nil_right_iff.1 hp
      simp [advanceWheels]
  | cons w ws ih =>
      have hws : Valid ws := fun v hm => hv v (List.mem_cons_of_mem _ hm)
      obtain ⟨i, q, hi, hq, rfl⟩ := List.forall₂_cons_right_iff.1 hp
      rw [List.map_cons, List.cons_lt_cons_iff, ih hws hq]
      cases ha : advanceWheels ws with
      | some vs => simp [advanceWheels, ha, cons_le_cons_iff]
      | none =>
          have hreset := reset_le hq
          rw [List.map_map] at hreset
          have hturn : (∃ v, w.turn? = some v ∧ (v.position < i ∨ v.position = i)) ↔
              w.position < i := by
            unfold Wheel.turn?
            split
            · simp only [Option.some.injEq, exists_eq_left']
              omega
            · simp only [reduceCtorEq, false_and, exists_false, false_iff]
              omega
          simp [advanceWheels, ha, cons_le_cons_iff, hreset, hturn]

/-- There is a next combination exactly if there are positions above the present ones, and it stands
at the least of them. -/
theorem lt_iff_advance (hv : Valid c.wheels) (hp : Fits p c.sets) :
    c.positions < p ↔ ∃ d, c.advance = some d ∧ d.positions ≤ p := by
  rw [positions, lt_iff_advanceWheels hv hp]
  constructor
  · intro h
    obtain ⟨vs, hvs, hle⟩ := h
    have hd : c.advance = some ⟨vs⟩ := by
      rw [advance, hvs]
      rfl
    exact ⟨⟨vs⟩, hd, hle⟩
  · intro h
    obtain ⟨d, hd, hle⟩ := h
    obtain ⟨vs, hvs, rfl⟩ := Option.map_eq_some_iff.1 hd
    exact ⟨vs, hvs, hle⟩

theorem Valid.advance (hv : Valid c.wheels) (hd : c.advance = some d) : Valid d.wheels := by
  obtain ⟨vs, hvs, rfl⟩ := Option.map_eq_some_iff.1 hd
  exact hv.advanceWheels hvs

theorem positions_lt_advance (hv : Valid c.wheels) (hd : c.advance = some d) :
    c.positions < d.positions := by
  have hfits : Fits d.positions c.sets := sets_advance hd ▸ (hv.advance hd).fits
  exact (lt_iff_advance hv hfits).2 ⟨d, hd, le_rfl⟩

/-! ## All turns -/

theorem run_of_last (hc : c.advance = none) : c.run = [c] := by
  rw [run]
  split
  · rfl
  · simp_all

theorem run_of_advance (hd : c.advance = some d) : c.run = c :: d.run := by
  rw [run]
  split
  · simp_all
  · rename_i d' hd'
    obtain rfl := Option.some.inj (hd.symm.trans hd')
    rfl

theorem map_tags_run (c : Combinations) : c.run.map tags = c.remainingTags := by
  induction c using run.induct with
  | case1 c hc =>
      rw [run_of_last hc, remainingTags_of_last hc, List.map_singleton]
  | case2 c d hd ih =>
      rw [run_of_advance hd, remainingTags_of_advance hd, List.map_cons, ih]

theorem valid_of_mem_run (hv : Valid c.wheels) : ∀ d ∈ c.run, Valid d.wheels ∧ d.sets = c.sets := by
  induction c using run.induct with
  | case1 c hc =>
      rw [run_of_last hc]
      simpa using hv
  | case2 c d hd ih =>
      rw [run_of_advance hd]
      have hlater := ih (hv.advance hd)
      rw [sets_advance hd] at hlater
      exact List.forall_mem_cons.2 ⟨⟨hv, rfl⟩, hlater⟩

/-- A run shows the positions from the present ones on. -/
theorem mem_positions_run (hv : Valid c.wheels) :
    p ∈ c.run.map positions ↔ Fits p c.sets ∧ c.positions ≤ p := by
  induction c using run.induct with
  | case1 c hc =>
      rw [run_of_last hc, List.map_singleton, List.mem_singleton]
      constructor
      · intro hp
        rw [hp]
        exact ⟨hv.fits, le_rfl⟩
      · intro hp
        rcases le_iff_lt_or_eq.1 hp.2 with hlt | heq
        · obtain ⟨d, hd, -⟩ := (lt_iff_advance hv hp.1).1 hlt
          exact nomatch hc.symm.trans hd
        · exact heq.symm
  | case2 c d hd ih =>
      have hturn (hp : Fits p c.sets) : c.positions < p ↔ d.positions ≤ p := by
        simp [lt_iff_advance hv hp, hd]
      rw [run_of_advance hd, List.map_cons, List.mem_cons, ih (hv.advance hd), sets_advance hd]
      constructor
      · intro hp
        rcases hp with hfirst | hlater
        · rw [hfirst]
          exact ⟨hv.fits, le_rfl⟩
        · have hlt := (hturn hlater.1).2 hlater.2
          exact ⟨hlater.1, hlt.le⟩
      · intro hp
        rcases le_iff_lt_or_eq.1 hp.2 with hlt | heq
        · exact .inr ⟨hp.1, (hturn hp.1).1 hlt⟩
        · exact .inl heq.symm

theorem pairwise_positions_run (hv : Valid c.wheels) :
    (c.run.map positions).Pairwise (· < ·) := by
  induction c using run.induct with
  | case1 c hc =>
      rw [run_of_last hc]
      exact List.pairwise_singleton _ _
  | case2 c d hd ih =>
      have hvd := hv.advance hd
      rw [run_of_advance hd, List.map_cons, List.pairwise_cons]
      have hlater : ∀ p ∈ d.run.map positions, c.positions < p := by
        intro p hp
        have hle := ((mem_positions_run hvd).1 hp).2
        exact (positions_lt_advance hv hd).trans_le hle
      exact ⟨hlater, ih hvd⟩

/-! ## What a combination binds -/

def chosen (c : Combinations) : List Tags :=
  c.wheels.filterMap Wheel.current?

theorem map_some_chosen (hv : Valid c.wheels) :
    c.chosen.map some = List.zipWith (fun xs i => xs[i]?) c.sets c.positions := by
  obtain ⟨ws⟩ := c
  show (ws.filterMap Wheel.current?).map some =
    List.zipWith _ (ws.map Wheel.sets) (ws.map Wheel.position)
  induction ws with
  | nil => rfl
  | cons w ws ih =>
      obtain ⟨t, ht, -⟩ := drop_position (hv w (List.mem_cons_self ..))
      rw [List.filterMap_cons_some ht, List.map_cons, ← ht,
        ih fun v hm => hv v (List.mem_cons_of_mem _ hm)]
      rfl

/-- The bindings of a combination are those of the sets it has chosen, laid over one another. -/
theorem tags_eq_foldl_chosen (c : Combinations) :
    c.tags = c.chosen.foldl Tags.override .empty := by
  rw [chosen, List.foldl_filterMap]
  unfold tags
  congr
  funext t w
  cases w.current? <;> rfl

/-! ## The whole product -/

theorem all_ungrouped {before group after : List (List Tags)} (hs : [] ∉ before ++ group ++ after) :
    all (before ++ all group :: after) = all (before ++ group ++ after) := by
  have hgroup : [] ∉ group := fun h => hs (by simp [h])
  have hgrouped : [] ∉ before ++ all group :: after := by
    have hne := (all_ne_nil group).symm
    simp_all
  rw [all_eq_product hs, all_eq_product hgrouped, all_eq_product hgroup, Tags.product_flatten]

/-- The combinations of non-empty lists are shown in lexicographic order of their positions, every
choice of positions once and the last list turning fastest. Each binds what the sets at its
positions bind, the later sets over the earlier ones. The bindings come in the same order if some
lists that follow one another are replaced by the list of their own combinations. -/
theorem run_ofSets (hs : [] ∉ sets) :
    (∀ p, p ∈ (ofSets sets).run.map positions ↔ Forall₂ (fun i xs => i < xs.length) p sets) ∧
      ((ofSets sets).run.map positions).Pairwise (List.Lex (· < ·)) ∧
      (∀ c ∈ (ofSets sets).run,
        c.chosen.map some = List.zipWith (fun xs i => xs[i]?) sets c.positions ∧
          c.tags = c.chosen.foldl Tags.override .empty ∧
          ∀ name, c.tags.get? name = c.chosen.reverse.findSome? (·.get? name)) ∧
      (ofSets sets).run.map tags = all sets ∧
      ∀ before group after, before ++ group ++ after = sets →
        all (before ++ all group :: after) = all sets := by
  have hv := valid_ofSets hs
  refine ⟨fun p => ?_, pairwise_positions_run hv, fun c hc => ?_, map_tags_run _, ?_⟩
  · rw [mem_positions_run hv, sets_ofSets]
    refine and_iff_left_of_imp fun hp => ?_
    rw [positions, ← map_reset_ofSets]
    exact reset_le (by rwa [← Combinations.sets, sets_ofSets])
  · obtain ⟨hvc, hsets⟩ := valid_of_mem_run hv c hc
    rw [sets_ofSets] at hsets
    refine ⟨hsets ▸ map_some_chosen hvc, tags_eq_foldl_chosen c, fun name => ?_⟩
    rw [tags_eq_foldl_chosen, Tags.get?_foldl_override, Tags.get?_empty, Option.or_none]
  · intro before group after hsplit
    rw [← hsplit] at hs ⊢
    exact all_ungrouped hs

/-- Two lists after a third, and the last setting of the three, in which one name is bound twice. -/
theorem run_ofSets_three :
    let xs := [Tags.ofNames ["a"] ⟨1⟩, Tags.ofNames ["a", "b"] ⟨2⟩]
    let ys := [Tags.ofNames ["b"] ⟨3⟩]
    let zs := [Tags.empty, Tags.ofNames ["c"] ⟨4⟩, Tags.ofNames ["a", "c"] ⟨5⟩]
    [] ∉ [xs, ys, zs] ∧
      (∃ c ∈ (ofSets [xs, ys, zs]).run, c.positions = [1, 0, 2] ∧ c.tags.get? "a" = some ⟨5⟩ ∧
        c.tags.get? "b" = some ⟨3⟩) ∧
      all [xs, all [ys, zs]] = all [xs, ys, zs] := by
  intro xs ys zs
  have hs : [] ∉ [xs, ys, zs] := by simp [xs, ys, zs]
  obtain ⟨hpositions, -, hbinds, -, hgroups⟩ := run_ofSets hs
  obtain ⟨c, hc, hp⟩ := List.mem_map.1 ((hpositions [1, 0, 2]).2 (by simp [xs, ys, zs]))
  obtain ⟨hchosen, -, hget⟩ := hbinds c hc
  have hsets : c.chosen = [Tags.ofNames ["a", "b"] ⟨2⟩, Tags.ofNames ["b"] ⟨3⟩,
      Tags.ofNames ["a", "c"] ⟨5⟩] := by
    refine List.map_injective_iff.2 (fun _ _ => Option.some.inj) ?_
    rw [hchosen, hp]
    rfl
  refine ⟨hs, ⟨c, hc, hp, ?_, ?_⟩, hgroups [xs] [ys, zs] [] rfl⟩
  · rw [hget, hsets]
    rfl
  · rw [hget, hsets]
    rfl

end Combinations

end GraphQuery
