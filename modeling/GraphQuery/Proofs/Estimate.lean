import GraphQuery.Plan.Cost
import GraphQuery.Proofs.Divergence
import GraphQuery.Proofs.Turning.Browse
import Mathlib.Algebra.Group.Int.Defs

/-!
# Exact estimates

An estimate is marked exact for leaves, and by the operators that can count from the counts of their
operands: unions, intersections of one operand, names, limits, skipping and sorting. Below such an
operator every result has one binding set, so it does not matter for the count who turns where, and
a feed is told by the number of results that it has unless it fails before.

Limits and skipping take their counts for signed numbers. A count with the highest bit set turns
negative. Such a limit is estimated below zero, and such a skip above what is skipped from, or at
zero where the difference wraps around.
-/

namespace GraphQuery

/-! ## Feeds of so many results -/

/-- `n` results with one binding set each, or a failure before there are more. -/
def Feed.Tallies : Feed → Nat → Prop
  | .done, n => n = 0
  | .failed _, _ => True
  | .row _ sets rest, n => sets.length = 1 ∧ ∃ m, n = m + 1 ∧ (rest 0).Tallies m

namespace Feed.Tallies

variable {F G : Feed} {m n : Nat}

theorem ofRows {rows : List Row} (h : ∀ r ∈ rows, r.sets.length = 1) :
    (Feed.ofRows rows).Tallies rows.length := by
  induction rows with
  | nil => rfl
  | cons r rows ih =>
      exact ⟨h r (List.mem_cons_self ..), _, rfl, ih fun q hq => h q (List.mem_cons_of_mem _ hq)⟩

theorem leaf (handles : List Handle) (mem : Handle → Bool) :
    (Meaning.leaf handles mem).feed.Tallies handles.length := by
  have h : (Feed.ofRows (handles.map Row.bare)).Tallies (handles.map Row.bare).length := ofRows <|
    List.forall_mem_map.2 fun _ _ => rfl
  rwa [List.length_map] at h

theorem mapSets (hF : F.Tallies n) (g : Handle → Tags → Tags) : (F.mapSets g).Tallies n := by
  induction F generalizing n with
  | done => exact hF
  | failed e => trivial
  | row h sets rest ih =>
      obtain ⟨hone, m, rfl, hrest⟩ := hF
      exact ⟨(List.length_map _).trans hone, m, rfl, ih 0 hrest⟩

theorem append (hF : F.Tallies m) (hG : G.Tallies n) : (F.append G).Tallies (m + n) := by
  induction F generalizing m with
  | done =>
      obtain rfl : m = 0 := hF
      rwa [Nat.zero_add]
  | failed e => trivial
  | row h sets rest ih =>
      obtain ⟨hone, m, rfl, hrest⟩ := hF
      exact ⟨hone, m + n, Nat.succ_add m n, ih 0 hrest⟩

theorem limit (hF : F.Tallies m) (hn : n ≠ 0) (count : Nat) :
    (F.limit n count).Tallies (min m (n - count)) := by
  induction F generalizing m count with
  | done =>
      obtain rfl : m = 0 := hF
      exact Nat.zero_min _
  | failed e =>
      unfold Feed.limit
      split
      · trivial
      · show min m (n - count) = 0
        omega
  | row h sets rest ih =>
      obtain ⟨hone, m, rfl, hrest⟩ := hF
      unfold Feed.limit
      split
      · -- One binding set is shown and one is counted.
        have hshown : (visible n count sets).length = 1 := by
          rw [visible, if_neg hn, List.length_take, hone]
          omega
        refine ⟨hshown, min m (n - (count + 1)), by omega, ?_⟩
        rw [hone]
        exact ih 0 hrest (count + 1)
      · show min (m + 1) (n - count) = 0
        omega

theorem skip (hF : F.Tallies m) (n : Nat) : (F.skip n).Tallies (m - n) := by
  induction n generalizing F m with
  | zero => exact hF
  | succ n ih =>
      cases F with
      | done =>
          obtain rfl : m = 0 := hF
          exact Nat.zero_sub _
      | failed e => trivial
      | row h sets rest =>
          obtain ⟨hone, m, rfl, hrest⟩ := hF
          rw [Nat.succ_sub_succ]
          exact ih hrest

theorem drain (hF : F.Tallies n) {vet : Handle → Option QueryError}
    (he : (F.drain vet).error = none) :
    (F.drain vet).rows.length = n ∧ ∀ r ∈ (F.drain vet).rows, r.sets.length = 1 := by
  induction F generalizing n with
  | done => exact ⟨hF.symm, by simp [Feed.drain]⟩
  | failed e => cases he
  | row h sets rest ih =>
      obtain ⟨hone, m, rfl, hrest⟩ := hF
      unfold Feed.drain at he ⊢
      cases hv : vet h with
      | some e => simp [hv] at he
      | none =>
          simp only [hv, hone, Nat.sub_self] at he ⊢
          obtain ⟨hlength, hsets⟩ := ih 0 hrest he
          exact ⟨congrArg (· + 1) hlength, List.forall_mem_cons.2 ⟨hone, hsets⟩⟩

theorem skim (hF : F.Tallies n) (he : F.skim.error = none) : F.skim.rows.length = n := by
  induction F generalizing n with
  | done => exact hF.symm
  | failed e => cases he
  | row h sets rest ih =>
      obtain ⟨-, m, rfl, hrest⟩ := hF
      exact congrArg (· + 1) (ih 0 hrest he)

theorem sorted (hF : F.Tallies n) (store : QuadStore) : (F.sorted store).Tallies n := by
  unfold Feed.sorted
  cases he : (F.drain store.vet).error with
  | some e => trivial
  | none =>
      obtain ⟨rfl, hsets⟩ := hF.drain he
      rw [← (List.mergeSort_perm _ store.notAfter).length_eq]
      exact ofRows fun r hr => hsets r (List.mem_mergeSort.1 hr)

theorem join (hF : F.Tallies n) : (F.join [] 0).Tallies n := by
  unfold Feed.join
  induction F generalizing n with
  | done => exact hF
  | failed e => trivial
  | row h sets rest ih =>
      obtain ⟨hone, m, rfl, hrest⟩ := hF
      have hne : [] ∉ [sets] := fun hmem => by
        rw [← List.mem_singleton.1 hmem] at hone
        cases hone
      refine ⟨?_, m, rfl, ?_⟩
      · show (Combinations.all [sets]).length = 1
        rw [Combinations.all_eq_product hne, Tags.product_singleton, hone]
      · show ((rest (sets.length - 1)).sift _ _ _).Tallies m
        rw [hone]
        exact ih 0 hrest

end Feed.Tallies

/-! ## Signed counts -/

namespace Costs

variable {a b : Int64}

theorem toInt_min (a b : Int64) : (min a b).toInt = min a.toInt b.toInt := by
  show (if a ≤ b then a else b).toInt = _
  simp only [Int64.le_iff_toInt_le]
  split <;> omega

theorem toInt_max (a b : Int64) : (max a b).toInt = max a.toInt b.toInt := by
  show (if a ≤ b then b else a).toInt = _
  simp only [Int64.le_iff_toInt_le]
  split <;> omega

theorem toInt_ofNat_of_le {n : Nat} (hn : 2 ^ 63 ≤ n) (hn' : n < 2 ^ 64) :
    (Int64.ofNat n).toInt = n - (2 ^ 64 : Nat) := by
  rw [Int64.toInt_ofNat', Int.bmod_def, show Int64.size = 2 ^ 64 from rfl]
  omega

theorem toInt_add {m n : Nat} (ha : a.toInt = m) (hb : b.toInt = n) (h : m + n < 2 ^ 63) :
    (a + b).toInt = (m + n : Nat) := by
  rw [Int64.toInt_add, ha, hb, Int.bmod_def]
  omega

theorem toInt_difference {m n : Int} (ha : a.toInt = m) (hb : b.toInt = n) (hm : 0 ≤ m) :
    (max (a - b) 0).toInt = if m - n < 2 ^ 63 then max (m - n) 0 else 0 := by
  have hm' := Int64.toInt_lt a
  have hn := Int64.le_toInt b
  have hn' := Int64.toInt_lt b
  rw [toInt_max, Int64.toInt_sub, ha, hb, show (0 : Int64).toInt = 0 from rfl]
  generalize hwrap : (m - n).bmod (2 ^ 64) = d
  rw [Int.bmod_def] at hwrap
  split at hwrap <;> omega

theorem total_cons (n : Int64) (ns : List Int64) : total (n :: ns) = n + total ns := by
  simp only [total, ← List.sum_eq_foldl, List.sum_cons]

theorem join_exact {operands : List Costs} {driver : Nat}
    (h : (join operands driver).size.exact = true) : operands.length = 1 := by
  unfold join at h
  split at h
  · cases h
  · simpa using (Bool.and_eq_true_iff.1 h).1

end Costs

/-! ## Estimates that are exact -/

namespace Plan

mutual

/-- No count has the highest bit set, as far as operators that may be estimated exactly go. -/
def CountsFit : Plan → Prop
  | .and operands _ | .or operands => CountsFitAll operands
  | .save p _ | .sort p => CountsFit p
  | .limit p n | .skip p n => n < 2 ^ 63 ∧ CountsFit p
  | _ => True

def CountsFitAll : List Plan → Prop
  | [] => True
  | p :: ps => CountsFit p ∧ CountsFitAll ps

end

mutual

/-- How many results the leaves have together, as far as operators that may be estimated exactly
go. -/
def leaves (store : QuadStore) : Plan → Nat
  | .fixed handles => handles.size
  | .all => store.stats.nodes
  | .and operands _ | .or operands => leavesAll store operands
  | .save p _ | .sort p | .limit p _ | .skip p _ => leaves store p
  | _ => 0

def leavesAll (store : QuadStore) : List Plan → Nat
  | [] => 0
  | p :: ps => leaves store p + leavesAll store ps

end

variable {store : QuadStore}

theorem exists_single {operands : List Plan} (h : (estimateAll store operands).length = 1) :
    ∃ p, operands = [p] := by
  match operands with
  | [] => cases h
  | [p] => exact ⟨p, rfl⟩
  | p :: q :: operands => cases h

mutual

/-- What an exact estimate says of the results. -/
theorem tallies_on (hstore : store.nodes.length = store.stats.nodes) (hole : Meaning) :
    ∀ p : Plan, p.CountsFit → p.leaves store < 2 ^ 63 → (p.estimate store).size.exact = true →
      ∃ n ≤ p.leaves store, (p.estimate store).size.value.toInt = n ∧
        (p.meaningOn store hole).feed.Tallies n
  | .fixed handles, _, hl, _ =>
      ⟨handles.size, Nat.le_refl _, Int64.toInt_ofNat_of_lt hl, .leaf handles.toList _⟩
  | .null, _, _, he | .input, _, _, he => nomatch he
  | .all, _, hl, _ => ⟨store.stats.nodes, Nat.le_refl _, Int64.toInt_ofNat_of_lt hl,
      hstore ▸ .leaf store.nodes _⟩
  | .and operands primary, hp, hl, he => by
      obtain ⟨p, rfl⟩ := exists_single (Costs.join_exact he)
      have hdriver : driver [p] primary = 0 := Nat.min_zero _
      rw [estimate, hdriver] at he ⊢
      obtain ⟨n, hle, hn, hF⟩ := tallies_on hstore hole p hp.1 hl he
      refine ⟨n, hle, ?_, ?_⟩
      · show (min (p.estimate store).size.value (p.estimate store).size.value).toInt = n
        rw [Costs.toInt_min, Int.min_self, hn]
      · rw [meaningOn, hdriver]
        exact hF.join
  | .or operands, hp, hl, he => by
      obtain ⟨n, hle, hn, hF⟩ := tallies_all hstore hole operands hp hl (List.all_eq_true.1 he)
      exact ⟨n, hle, hn, hF⟩
  | .not forbidden whole, _, _, he => nomatch he
  | .unique p, _, _, he => nomatch he
  | .save p names, hp, hl, he => by
      obtain ⟨n, hle, hn, hF⟩ := tallies_on hstore hole p hp hl he
      exact ⟨n, hle, hn, hF.mapSets _⟩
  | .limit p k, hp, hl, he => by
      by_cases hk : k = 0
      · subst hk
        obtain ⟨n, hle, hn, hF⟩ := tallies_on hstore hole p hp.2 hl he
        refine ⟨n, hle, hn, ?_⟩
        rw [meaningOn]
        show (Feed.limit 0 _ 0).Tallies n
        rwa [Feed.limit_zero]
      · rw [estimate, Costs.limit, if_neg hk] at he ⊢
        obtain ⟨n, hle, hn, hF⟩ := tallies_on hstore hole p hp.2 hl he
        refine ⟨min n (k - 0), Nat.le_trans (Nat.min_le_left _ _) hle, ?_, hF.limit hk 0⟩
        show (min _ (Int64.ofNat k)).toInt = _
        rw [Costs.toInt_min, hn, Int64.toInt_ofNat_of_lt hp.1]
        omega
  | .skip p k, hp, hl, he => by
      obtain ⟨n, hle, hn, hF⟩ := tallies_on hstore hole p hp.2 hl he
      refine ⟨n - k, Nat.le_trans (Nat.sub_le n k) hle, ?_, hF.skip k⟩
      have hlt : n < 2 ^ 63 := Nat.lt_of_le_of_lt hle hl
      show (max (_ - Int64.ofNat k) 0).toInt = _
      rw [Costs.toInt_difference hn (Int64.toInt_ofNat_of_lt hp.1) (Int.natCast_nonneg n)]
      omega
  | .sort p, hp, hl, he => by
      obtain ⟨n, hle, hn, hF⟩ := tallies_on hstore hole p hp hl he
      exact ⟨n, hle, hn, hF.sorted store⟩
  | .step .., _, _, he => nomatch he
  | .filter p test, _, _, he => nomatch he
  | .map p f, _, _, he => nomatch he
  | .constraint p cs, _, _, he => nomatch he
  | .recursive .., _, _, he => nomatch he

theorem tallies_all (hstore : store.nodes.length = store.stats.nodes) (hole : Meaning) :
    ∀ ps : List Plan, CountsFitAll ps → leavesAll store ps < 2 ^ 63 →
      (∀ c ∈ estimateAll store ps, c.size.exact = true) →
      ∃ n ≤ leavesAll store ps,
        (Costs.total ((estimateAll store ps).map fun c => c.size.value)).toInt = n ∧
          (Feed.concat ((meaningOfAll store hole ps).map Meaning.feed)).Tallies n
  | [], _, _, _ => ⟨0, Nat.le_refl 0, rfl, rfl⟩
  | p :: ps, hp, hl, he => by
      have hsum : p.leaves store + leavesAll store ps < 2 ^ 63 := hl
      obtain ⟨m, hm, hvalue, hF⟩ :=
        tallies_on hstore hole p hp.1 (by omega) (he _ (List.mem_cons_self ..))
      obtain ⟨n, hn, htotal, hG⟩ := tallies_all hstore hole ps hp.2 (by omega) fun c hc =>
        he c (List.mem_cons_of_mem _ hc)
      refine ⟨m + n, Nat.add_le_add hm hn, ?_, hF.append hG⟩
      rw [estimateAll, List.map_cons, Costs.total_cons]
      exact Costs.toInt_add hvalue htotal (by omega)

end

/-- What a fresh scanner shows to someone who pulls to the end and never turns. -/
def pulled (store : QuadStore) (p : Plan) : Delivered :=
  let S := (p.roles store).scanner
  let r := S.browse (fun _ => 0) S.fresh
  ⟨r.items, r.error⟩

theorem pulled_eq (store : QuadStore) (p : Plan) :
    p.pulled store = (p.meaning store).feed.skim := by
  obtain ⟨s', h⟩ := (p.realizes store).shows.browse (p.idles store) rfl fun _ => 0
  rw [pulled, h, Feed.skim_eq_browsed]

end Plan

/-- An exact estimate is the number of results that are pulled, unless a limit or a skip that it is
made through has a count with the highest bit set, or the leaves have more results than a signed
number counts. On top of such an estimate, every limit with such a count has an exact estimate that
is wrong, and so has every skip, unless the difference wraps around. -/
theorem MemoryStore.exact_size_counts (m : MemoryStore) :
    (∀ (p : Plan) (c : Costs), p.CountsFit → p.leaves m.toStore < 2 ^ 63 →
      p.cost m.toStore .never = (.ok c, .never) → c.size.exact = true →
        (p.pulled m.toStore).error = none →
          ((p.pulled m.toStore).rows.length : Int) = c.size.value.toInt) ∧
    ∀ (p : Plan) (c : Costs) (k : Nat), p.CountsFit → p.leaves m.toStore < 2 ^ 63 →
      p.cost m.toStore .never = (.ok c, .never) → c.size.exact = true → 2 ^ 63 ≤ k → k < 2 ^ 64 →
        (∃ d, (p.limit k).cost m.toStore .never = (.ok d, .never) ∧ d.size.exact = true ∧
          ((p.limit k).pulled m.toStore).rows.length ≠ d.size.value.toInt) ∧
        ∃ d, (p.skip k).cost m.toStore .never = (.ok d, .never) ∧ d.size.exact = true ∧
          (((p.skip k).pulled m.toStore).error = none →
            (((p.skip k).pulled m.toStore).rows.length = d.size.value.toInt ↔
              k ≤ 2 ^ 63 + c.size.value.toInt)) := by
  have hstore : m.toStore.nodes.length = m.toStore.stats.nodes := by
    simp [toStore, nodes, stats]
  constructor
  · intro p c hp hl hc he hend
    rw [Plan.cost_never] at hc
    obtain rfl := Except.ok.inj (congrArg Prod.fst hc)
    obtain ⟨n, -, hn, hF⟩ := Plan.tallies_on hstore Plan.noHole p hp hl he
    rw [Plan.pulled_eq] at hend ⊢
    rw [hn, Int.natCast_inj]
    exact hF.skim hend
  · intro p c k hp hl hc he hk hk'
    rw [Plan.cost_never] at hc
    obtain rfl := Except.ok.inj (congrArg Prod.fst hc)
    obtain ⟨n, hle, hn, hF⟩ := Plan.tallies_on hstore Plan.noHole p hp hl he
    have hlt : n < 2 ^ 63 := Nat.lt_of_le_of_lt hle hl
    have hneg := Costs.toInt_ofNat_of_le hk hk'
    constructor
    · -- The lesser of the two is the limit, below zero.
      have hk0 : k ≠ 0 := by omega
      refine ⟨_, Plan.cost_never _, ?_⟩
      rw [Plan.estimate, Costs.limit, if_neg hk0]
      refine ⟨he, ?_⟩
      show (_ : Int) ≠ (min _ (Int64.ofNat k)).toInt
      rw [Costs.toInt_min]
      omega
    · refine ⟨_, Plan.cost_never _, he, fun hend => ?_⟩
      rw [Plan.pulled_eq] at hend ⊢
      have hcount : ((p.skip k).meaning m.toStore).feed.skim.rows.length = n - k :=
        (hF.skip k).skim hend
      show _ = (max (_ - Int64.ofNat k) 0).toInt ↔ _
      rw [hcount, Costs.toInt_difference hn hneg (Int.natCast_nonneg n), hn]
      omega

open Session (oneNumber)

/-- A limit of one more than a union has, and the longest skip from it. -/
theorem exact_size_of_union :
    let p : Plan := .limit (.or [.all, .fixed (.ofList [.ofNat 0])]) 3
    (p.cost oneNumber.toStore .never).1 = .ok ⟨2, 1, ⟨2, true⟩⟩ ∧
      (p.pulled oneNumber.toStore).rows.length = 2 ∧
      ∃ d, ((p.skip (2 ^ 64 - 1)).cost oneNumber.toStore .never) = (.ok d, .never) ∧
        d.size.exact = true ∧
        ((p.skip (2 ^ 64 - 1)).pulled oneNumber.toStore).rows.length ≠ d.size.value.toInt := by
  intro p
  have hcost : p.cost oneNumber.toStore .never = (.ok ⟨2, 1, ⟨2, true⟩⟩, .never) := by
    rw [Plan.cost_never]
    exact congrArg (·, Token.never) (by decide +kernel)
  have hend : (p.pulled oneNumber.toStore).error = none := by
    rw [Plan.pulled_eq]
    decide +kernel
  have hskip : ((p.skip (2 ^ 64 - 1)).pulled oneNumber.toStore).error = none := by
    rw [Plan.pulled_eq]
    decide +kernel
  have hp : p.CountsFit := ⟨by decide, trivial, trivial, trivial⟩
  have hl : p.leaves oneNumber.toStore < 2 ^ 63 := by decide +kernel
  obtain ⟨hcounts, hwrong⟩ := oneNumber.exact_size_counts
  refine ⟨congrArg Prod.fst hcost, Int.ofNat_inj.1 (hcounts p _ hp hl hcost rfl hend), ?_⟩
  obtain ⟨-, d, hd, hexact, hright⟩ :=
    hwrong p _ (2 ^ 64 - 1) hp hl hcost rfl (by decide) (by decide)
  exact ⟨d, hd, hexact, (hright hskip).not.2 (by decide)⟩

/-- The largest count there is, as a limit and as a number of results to skip: of one result, the
estimates are minus one and two, both marked exact. -/
theorem exact_size_of_largest_count :
    let one : Plan := .fixed (.ofList [.ofNat 0])
    let limited : Plan := .limit one (2 ^ 64 - 1)
    let skipped : Plan := .skip one (2 ^ 64 - 1)
    (limited.cost oneNumber.toStore .never).1 = .ok ⟨1, 1, ⟨-1, true⟩⟩ ∧
      limited.pulled oneNumber.toStore = ⟨[.bare (.ofNat 0)], none⟩ ∧
      (skipped.cost oneNumber.toStore .never).1 = .ok ⟨1, 1, ⟨2, true⟩⟩ ∧
      skipped.pulled oneNumber.toStore = ⟨[], none⟩ := by
  intro one limited skipped
  rw [Plan.pulled_eq, Plan.pulled_eq, Plan.cost_never, Plan.cost_never]
  exact ⟨by decide +kernel, rfl, by decide +kernel, rfl⟩

end GraphQuery
