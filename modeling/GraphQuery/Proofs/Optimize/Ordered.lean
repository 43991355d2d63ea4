import GraphQuery.Proofs.Optimize.Pass

/-!
# Passes that keep the order

A pass that is told that the order of the results matters keeps the drain of a plan, provided that
the limits in the plan are steady, that no counts of skips wrap around and that functions on values
read no order that the pass may change. Without the last condition it does not: a mapped operand is
probed through a record of its scan, and the pass may let another operand drive below it.
-/

namespace GraphQuery.Plan

/-- A pass that is told that the order matters keeps what a full drain reports: the same results in
sequence, each with the same binding sets in the same order. The plan holds nodes of the store and
its callbacks do not fail; its limits are steady and its skips can be merged; and a pass keeps the
order wherever a function on values reads it. -/
theorem ordered_pass_keeps_report (m : MemoryStore) (hm : m.Addressable) (p : Plan)
    (hp : p.Within m.toStore.harmless) (hsteady : p.Steady m.toStore) (hfit : p.SkipsFit)
    (horder : p.Orderly false true) :
    ∃ rows, (p.roles m.toStore).scanner.report .never = (.ok rows, .never) ∧
      ((p.optimize m.toStore true .never).1.1.roles m.toStore).scanner.report .never =
        (.ok rows, .never) := by
  have hs := MemoryStore.coherent hm
  have htabular : p.Tabular m.toStore := ⟨hp, hsteady⟩
  have hkept := kept_optimize hs p false true .never htabular hfit horder
  refine ⟨_, htabular.report hs, ?_⟩
  rw [hkept.tidy.holds.report hs, hkept.same.eq]

def threeNumbers : MemoryStore :=
  (((MemoryStore.empty.addValue (.int 1)).2.addValue (.int 2)).2.addValue (.int 3)).2

theorem addressable_threeNumbers : threeNumbers.Addressable :=
  ⟨by decide +kernel, by decide +kernel⟩

def numbers (places : List Nat) : Plan :=
  .fixed (.ofList (places.map .ofNat))

theorem within_numbers {places : List Nat} (hp : ∀ n ∈ places, n < 3) :
    (numbers places).Within threeNumbers.toStore.unlimited := by
  have hnodes : ∀ n < 3, Handle.ofNat n ∈ threeNumbers.toStore.nodes := by decide +kernel
  intro h hh
  obtain ⟨n, hn, rfl⟩ := List.mem_map.1 (HandleList.mem_toList_ofList.1 hh)
  exact hnodes n (hp n hn)

def onesFrom (driver other : Plan) : Plan :=
  .map (.save (.and [driver, other] 0) ["source"]) fun _ => .ok (.int 1)

theorem within_onesFrom {driver other : Plan} (hd : driver.Within threeNumbers.toStore.unlimited)
    (ho : other.Within threeNumbers.toStore.unlimited) :
    (onesFrom driver other).Within threeNumbers.toStore.unlimited :=
  ⟨fun _ _ _ => ⟨_, rfl⟩, hd, ho, trivial⟩

/-- The images of two numbers, without the binding of the second. -/
theorem unique_image_keeps_report :
    let p : Plan := .and [numbers [0], .unique (.limit (onesFrom (numbers [2, 0, 1]) .all) 2)] 0
    ∃ rows, (p.roles threeNumbers.toStore).scanner.report .never = (.ok rows, .never) ∧
      ((p.optimize threeNumbers.toStore true .never).1.1.roles threeNumbers.toStore).scanner.report
        .never = (.ok rows, .never) := by
  intro p
  have hs := MemoryStore.coherent addressable_threeNumbers
  have hones : (onesFrom (numbers [2, 0, 1]) .all).Within threeNumbers.toStore.unlimited :=
    within_onesFrom (within_numbers (by decide)) trivial
  have hsteady : SteadyAt 2
      ((onesFrom (numbers [2, 0, 1]) .all).table threeNumbers.toStore).rows := by decide +kernel
  have hlimit := (tabular_limit_iff hs).2 ⟨tabular_of_unlimited hones, hsteady⟩
  have hfirst : (numbers [0]).Tabular threeNumbers.toStore :=
    tabular_of_unlimited (within_numbers (by decide))
  exact ordered_pass_keeps_report threeNumbers addressable_threeNumbers p
    ⟨hfirst.within, hlimit.within, trivial⟩ ⟨trivial, hlimit.steady, trivial⟩ (by decide)
    ⟨fun _ => rfl, trivial, ⟨fun _ => rfl, trivial, trivial, trivial⟩, trivial⟩

/-- Where the images are probed, the pass lets the smaller operand drive below the function, and
what the image is bound to comes in another order. -/
theorem probed_images_reordered :
    let p : Plan := .and [numbers [0], onesFrom (numbers [0, 1, 2]) (numbers [1, 0])] 0
    let source n := Tags.empty.insert "source" (.ofNat n)
    p.Within threeNumbers.toStore.harmless ∧
      (p.roles threeNumbers.toStore).scanner.report .never =
        (.ok [⟨.ofNat 0, [source 0, source 1]⟩], .never) ∧
      ((p.optimize threeNumbers.toStore true .never).1.1.roles threeNumbers.toStore).scanner.report
        .never = (.ok [⟨.ofNat 0, [source 1, source 0]⟩], .never) := by
  intro p source
  have hs := MemoryStore.coherent addressable_threeNumbers
  have hp : p.Within threeNumbers.toStore.unlimited :=
    ⟨within_numbers (by decide),
      within_onesFrom (within_numbers (by decide)) (within_numbers (by decide)), trivial⟩
  have hq : (p.optimize threeNumbers.toStore true .never).1.1.Within
      threeNumbers.toStore.unlimited := within_optimize hp true .never
  have hrows : (p.table threeNumbers.toStore).rows = [⟨.ofNat 0, [source 0, source 1]⟩] := by
    decide +kernel
  have hrows' : ((p.optimize threeNumbers.toStore true .never).1.1.table
      threeNumbers.toStore).rows = [⟨.ofNat 0, [source 1, source 0]⟩] := by
    decide +kernel
  refine ⟨Within.mono threeNumbers.toStore.unlimited_le p hp, ?_, ?_⟩
  · rw [(tabular_of_unlimited hp).report hs, hrows]
  · rw [(tabular_of_unlimited hq).report hs, hrows']

end GraphQuery.Plan
