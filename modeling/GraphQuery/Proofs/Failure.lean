import GraphQuery.Proofs.Collect
import GraphQuery.Proofs.Safety.Plan

/-!
# When simplified plans fail

Callbacks that never fail make no query fail. A callback that fails on a single value of the store
is enough for a query that succeeds as it stands and fails once its plan is simplified: a pass may
let another operand drive an intersection, and the callback meets values that it never met before.
-/

namespace GraphQuery

/-! ## Visits that cannot fail -/

namespace Scanner

open Session (keepRow)

variable {S : Scanner}

theorem visitResult_goesOn (d : Delivery) {after : Nat → S.State → Prop} {sets : List Tags}
    {s : S.State} {h : Handle} (ho : S.Offers h none after sets s) (rows : Nat)
    (x : List ResultRow) :
    ∃ rows' x' s' k, S.visitResult d keepRow s rows x .never = ⟨.goOn, rows', x', s', .never⟩ ∧
      after k s' := by
  induction sets generalizing s after rows x with
  | nil => exact ho.elim
  | cons t sets ih =>
      by_cases hd : (!d.paths || d.isFull (rows + 1)) = true
      · cases sets with
        | nil => exact ⟨_, _, s, 0, visitResult_full ho.1 hd, ho.start⟩
        | cons u sets => exact ⟨_, _, s, 0, visitResult_full ho.1 hd, ho.start⟩
      · have hd := Bool.eq_false_iff.2 hd
        cases sets with
        | nil =>
            obtain ⟨hr, -, ha, s', hn, ha'⟩ := ho
            exact ⟨_, _, s', 0, visitResult_nothing hr hd hn, ha'⟩
        | cons u sets =>
            obtain ⟨hr, -, -, s', hn, hu⟩ := ho
            obtain ⟨rows', x', s'', k, hv, ha⟩ :=
              ih hu (rows + 1) (⟨h, (S.tags s).insert resultName h⟩ :: x)
            exact ⟨rows', x', s'', k + 1, (visitResult_found hr hd hn).trans hv, ha⟩

theorem Shows.visit_ok {ok : Handle → Prop} (d : Delivery) {F : Feed} (hF : F.Safe ok)
    {s : S.State} (hs : S.Shows F s) (rows : Nat) (x : List ResultRow) :
    ∃ n x', S.visitFrom d keepRow s rows x .never = ⟨.ok n, x', .never⟩ := by
  induction F generalizing s rows x with
  | failed e => exact hF.elim
  | done =>
      obtain ⟨s', hn⟩ := hs
      rw [Scanner.visitFrom]
      split
      · exact ⟨_, _, rfl⟩
      · dsimp only
        split <;> simp_all
  | row h sets rest ih =>
      obtain ⟨s', hn, ho⟩ := hs
      obtain ⟨rows', x', s'', k, hv, hrest⟩ := visitResult_goesOn d ho rows x
      obtain ⟨n, x'', hvisit⟩ := ih k (hF.2.2 k) hrest rows' x'
      rw [Scanner.visitFrom]
      split
      · exact ⟨_, _, rfl⟩
      · dsimp only
        split <;> simp_all

end Scanner

/-! ## An intersection that changes its driver -/

namespace Plan

variable {store : QuadStore} {p q : Plan} {h : Handle}

/-- A plan that passes leave as it is, and that intersections keep as an operand of its own. -/
structure Settled (store : QuadStore) (p : Plan) : Prop where
  kept : optimize store false p .never = ((p, false), .never)
  conjuncts_eq : p.conjuncts = [p]
  isNull_eq : p.isNull = false
  isAll_eq : p.isAll = false

theorem pickDriver_pair (hlt : (q.estimate store).size.value < (p.estimate store).size.value)
    {k : Nat} (hk : k < 2) : pickDriver store [p, q] k .never = (1, .never) := by
  have hnot : ¬ (p.estimate store).size.value < (q.estimate store).size.value :=
    Int64.lt_asymm hlt
  obtain rfl | rfl : k = 0 ∨ k = 1 := by omega
  · simp only [pickDriver, pickSmallest, bind, StateT.bind, cost_never, List.getElem?_cons_zero,
      Int64.lt_irrefl, hlt, if_false, if_true]
    rfl
  · simp only [pickDriver, pickSmallest, bind, StateT.bind, cost_never, List.getElem?_cons_zero,
      List.getElem?_cons_succ, Int64.lt_irrefl, hnot, if_false]
    rfl

theorem flattenIntersection_pair (hp : p.Settled store) (hq : q.Settled store) {k : Nat}
    (hk : k < 2) :
    flattenIntersection k 0 [(p, false), (q, false)] ⟨[], 0, false⟩ = ⟨[p, q], k, false⟩ := by
  have hone : ∀ {r : Plan}, r.conjuncts = [r] → ∀ i xs acc,
      flattenIntersection k i ((r, false) :: xs) acc =
        flattenIntersection k (i + 1) xs ⟨acc.operands ++ [r],
          if i = k then acc.operands.length else acc.driver, acc.changed⟩ := by
    intro r hr i xs acc
    cases r with
    | and rs j =>
        have hsize : sizeOf rs = sizeOf [Plan.and rs j] := congrArg sizeOf hr
        simp only [List.cons.sizeOf_spec, List.nil.sizeOf_spec, Plan.and.sizeOf_spec] at hsize
        omega
    | _ => simp [flattenIntersection]
  rw [hone hp.conjuncts_eq, hone hq.conjuncts_eq]
  obtain rfl | rfl : k = 0 ∨ k = 1 := by omega
  · rfl
  · rfl

theorem simplifyIntersection_pair (hp : p.Settled store) (hq : q.Settled store) {k : Nat}
    (hk : k < 2) : simplifyIntersection false ⟨[p, q], k, false⟩ = ⟨[p, q], k, false⟩ := by
  obtain rfl | rfl : k = 0 ∨ k = 1 := by omega
  · simp [simplifyIntersection, dropAll, hp.isAll_eq, hq.isAll_eq]
  · simp [simplifyIntersection, dropAll, hp.isAll_eq, hq.isAll_eq]

/-- All that a pass does to an intersection of two settled operands is to let the smaller drive. -/
theorem optimize_pair (hp : p.Settled store) (hq : q.Settled store)
    (hlt : (q.estimate store).size.value < (p.estimate store).size.value) {k : Nat} (hk : k < 2) :
    optimize store false (.and [p, q] k) .never =
      ((.and [p, q] 1, decide (1 ≠ k)), .never) := by
  have hdriver : driver [p, q] k = k := by
    simp only [driver, List.length_cons, List.length_nil]
    omega
  have hops : optimizeOperands store false k 0 [p, q] .never =
      ([(p, false), (q, false)], .never) := by
    simp only [optimizeOperands, bind, StateT.bind, Bool.false_and, hp.kept, hq.kept]
    rfl
  show (optimizeOperands store false (driver [p, q] k) 0 [p, q] >>=
    simplifyAnd store false (driver [p, q] k)) .never = _
  rw [hdriver]
  simp only [bind, StateT.bind, hops, simplifyAnd, flattenIntersection_pair hp hq hk,
    simplifyIntersection_pair hp hq hk]
  simp only [List.isEmpty_cons, List.any_cons, List.any_nil, hp.isNull_eq, hq.isNull_eq,
    Bool.or_self, Bool.false_or, Bool.false_eq_true, if_false, bind, StateT.bind,
    pickDriver_pair hlt hk]
  rfl

theorem normalize_pair (hp : p.Settled store) (hq : q.Settled store)
    (hlt : (q.estimate store).size.value < (p.estimate store).size.value) (n : Nat) :
    normalize store (n + 2) (.and [p, q] 0) .never = (.ok (.and [p, q] 1), .never) := by
  rw [normalize, show max (n + 2) 1 = n + 1 + 1 by omega, passesLeft_succ, Token.check_never]
  simp only [optimize_pair hp hq hlt (k := 0) (by omega)]
  rw [passesLeft_succ, Token.check_never]
  simp only [optimize_pair hp hq hlt (k := 1) (by omega)]
  rfl

def decoy (h : Handle) : Plan :=
  .constraint (.or [.fixed (.ofList [h]), .fixed (.ofList [h])]) [.kinds []]

theorem settled_decoy (h : Handle) : (decoy h).Settled store :=
  ⟨rfl, rfl, rfl, rfl⟩

theorem settled_filter (h : Handle) (test : ValueTest) :
    (Plan.filter (.fixed (.ofList [h])) test).Settled store :=
  ⟨rfl, rfl, rfl, rfl⟩

theorem settled_map (h : Handle) (f : ValueMap) :
    (Plan.map (.fixed (.ofList [h])) f).Settled store :=
  ⟨rfl, rfl, rfl, rfl⟩

theorem estimate_decoy (h : Handle) : ((decoy h).estimate store).size.value = 2 := by
  have : (decoy h).estimate store = (Costs.union [.ofCount 1, .ofCount 1]).test := rfl
  rw [this]
  rfl

theorem estimate_filter (h : Handle) (test : ValueTest) :
    ((Plan.filter (.fixed (.ofList [h])) test).estimate store).size.value = 1 := by
  have : (Plan.filter (.fixed (.ofList [h])) test).estimate store = (Costs.ofCount 1).test := rfl
  rw [this]
  rfl

theorem estimate_map (h : Handle) (f : ValueMap) :
    ((Plan.map (.fixed (.ofList [h])) f).estimate store).size.value = 1 := by
  have : (Plan.map (.fixed (.ofList [h])) f).estimate store = (Costs.ofCount 1).map := rfl
  rw [this]
  rfl

theorem collected_decoy {v : Value} (hv : store.resolve h = some v) (bait : Plan) :
    ((Plan.and [decoy h, bait] 0).meaning store).feed.delivered.collected = .ok [] := by
  have hverdict : verdictOn store (fun v => .ok ([Constraint.kinds []].all (·.holds v)))
      (fun h => .failed (.unknownHandle h)) h = .nothing := by
    simp only [verdictOn, hv]
    rfl
  have hdecoy : ((decoy h).meaning store).feed =
      (Feed.ofRows [.bare h, .bare h]).sieve
        (.plain (verdictOn store (fun v => .ok ([Constraint.kinds []].all (·.holds v)))
          fun h => .failed (.unknownHandle h))) () := rfl
  have hjoin : ((Plan.and [decoy h, bait] 0).meaning store).feed =
      ((decoy h).meaning store).feed.join [(bait.meaning store).reply] 0 := rfl
  rw [hjoin, hdecoy]
  simp only [Feed.ofRows, Row.bare, Feed.sieve, Feed.sift, hverdict]
  rfl

theorem collected_bait {bait : Plan} {e : QueryError}
    (hb : (bait.meaning store).feed = .failed e) :
    ((Plan.and [decoy h, bait] 1).meaning store).feed.delivered.collected = .error e := by
  have hjoin : ((Plan.and [decoy h, bait] 1).meaning store).feed =
      (bait.meaning store).feed.join [((decoy h).meaning store).reply] 1 := rfl
  rw [hjoin, hb]
  rfl

theorem feed_filter {v : Value} (hv : store.resolve h = some v) {test : ValueTest}
    {reason : String} (ht : test v = .error reason) :
    ((Plan.filter (.fixed (.ofList [h])) test).meaning store).feed =
      .failed (.callback reason) := by
  have hverdict : verdictOn store test (fun h => .failed (.unknownHandle h)) h =
      .failed (.callback reason) := by
    simp only [verdictOn, hv, ht]
  show (Feed.ofRows [.bare h]).sieve (.plain (verdictOn store test fun h =>
    .failed (.unknownHandle h))) () = _
  simp only [Feed.ofRows, Row.bare, Feed.sieve, Feed.sift, hverdict]

theorem feed_map {v : Value} (hv : store.resolve h = some v) {f : ValueMap}
    {reason : String} (hf : f v = .error reason) :
    ((Plan.map (.fixed (.ofList [h])) f).meaning store).feed = .failed (.callback reason) := by
  have himage : imageOf store f h = .failed (.callback reason) := by
    simp only [imageOf, hv, hf]
  show (Feed.ofRows [.bare h]).mapped store f = _
  simp only [Feed.ofRows, Row.bare, Feed.mapped, Feed.sift, himage]

end Plan

/-! ## Callbacks that fail -/

namespace Session

/-- Whatever query with such callbacks succeeds as it stands succeeds once its plan is simplified,
if passes come to an end. -/
def SimplifiesSafely (m : MemoryStore) (test : ValueTest → Prop) (map : ValueMap → Prop) : Prop :=
  ∀ (config : Config) (path : Path),
    path.Within ⟨fun _ => True, test, map, (· ∈ m.toStore.nodes)⟩ →
    (collect ⟨m.toStore, { config with optimize := false }⟩ path none .never).1.isOk →
    (prepare ⟨m.toStore, { config with optimize := true }⟩ path .never).1.isOk →
    (collect ⟨m.toStore, { config with optimize := true }⟩ path none .never).1.isOk

/-- Harmless plans fail no query, whatever is delivered of them. -/
theorem isOk_collect {s : Session} (hs : s.store.Coherent) {path : Path} {plan : Plan}
    (hplan : (s.prepare path .never).1 = .ok plan) (hp : plan.Within s.store.harmless) :
    (s.collect path none .never).1.isOk := by
  have hprepare := prepare_eq hplan
  have hsafe := (Plan.safe_on hs Plan.safe_noHole plan hp).feed
  obtain ⟨n, x, hvisit⟩ := (plan.realizes s.store).shows.visit_ok
    ⟨s.config.includePaths, s.effectiveLimit none⟩ hsafe 0 []
  rw [collect, forEach, run, hprepare]
  simp only [Scanner.visit, hvisit]
  rfl

def trap (v : Value) (op : Op) : Path :=
  .mk (.values [v]) [.or (.vertex [v]), .constrain (.kinds []), .and (.mk (.values [v]) [op])]

/-- The plan of the trap, if the operation makes of its one node the second operand. -/
theorem compile_trap {m : MemoryStore} {h : Handle} {v : Value} (hi : m.intern v = some h) (op : Op)
    {bait : Plan}
    (hop : ∀ target ctx, Path.lower target ctx (.fixed (.ofList [h])) op = (bait, ctx)) :
    (trap v op).compile m.toStore .first = .and [Plan.decoy h, bait] 0 := by
  have hseed : Plan.ofValues m.toStore [v] = .fixed (.ofList [h]) := by
    have : m.toStore.intern v = some h := hi
    simp [Plan.ofValues, this]
  simp [trap, Path.vertex, Path.compile, Path.build, Path.buildOps, Path.lower, hseed, hop,
    Plan.decoy]

theorem not_simplifiesSafely {m : MemoryStore} {test : ValueTest → Prop} {map : ValueMap → Prop}
    {h : Handle} {v : Value} (hv : m.resolve h = some v) {op : Op} {bait : Plan} {e : QueryError}
    (hop : (trap v op).Within ⟨fun _ => True, test, map, (· ∈ m.toStore.nodes)⟩)
    (hcompile : (trap v op).compile m.toStore .first = .and [Plan.decoy h, bait] 0)
    (hsettled : bait.Settled m.toStore) (hsize : (bait.estimate m.toStore).size.value = 1)
    (hfeed : (bait.meaning m.toStore).feed = .failed e) : ¬ SimplifiesSafely m test map := by
  intro hsafe
  have hplain : (prepare ⟨m.toStore, { optimize := false }⟩ (trap v op) .never).1 =
      .ok (.and [Plan.decoy h, bait] 0) := congrArg Except.ok hcompile
  have hsimple : (prepare ⟨m.toStore, { optimize := true }⟩ (trap v op) .never).1 =
      .ok (.and [Plan.decoy h, bait] 1) := by
    show (Plan.normalize m.toStore 16 ((trap v op).compile m.toStore .first) .never).1 = _
    rw [hcompile, Plan.normalize_pair (Plan.settled_decoy h) hsettled
      (by rw [hsize, Plan.estimate_decoy]; decide) 14]
  have hok := hsafe {} (trap v op) hop
    (by rw [collect_eq rfl rfl hplain, Plan.collected_decoy hv]; rfl) (by rw [hsimple]; rfl)
  rw [collect_eq rfl rfl hsimple, Plan.collected_bait hfeed] at hok
  cases hok

/-- A test that fails on a single value can be trapped. -/
theorem SimplifiesSafely.total_test {m : MemoryStore} (hm : m.Addressable)
    {test : ValueTest → Prop} {map : ValueMap → Prop} (hsafe : SimplifiesSafely m test map)
    {f : ValueTest} (hf : test f) : m.toStore.Total f := by
  intro h v hv
  cases hr : f v with
  | ok b => exact ⟨b, rfl⟩
  | error reason =>
      obtain ⟨h', hi, hv'⟩ := MemoryStore.exists_intern hm hv
      have hwithin : (trap v (.filter f)).Within
          ⟨fun _ => True, test, map, (· ∈ m.toStore.nodes)⟩ :=
        ⟨trivial, trivial, ⟨hf, trivial⟩, trivial⟩
      have hcompile := compile_trap hi (.filter f) fun _ _ => by rw [Path.lower]
      exact (not_simplifiesSafely hv' hwithin hcompile (Plan.settled_filter h' f)
        (Plan.estimate_filter h' f) (Plan.feed_filter hv' hr) hsafe).elim

theorem SimplifiesSafely.total_map {m : MemoryStore} (hm : m.Addressable)
    {test : ValueTest → Prop} {map : ValueMap → Prop} (hsafe : SimplifiesSafely m test map)
    {f : ValueMap} (hf : map f) : m.toStore.Total f := by
  intro h v hv
  cases hr : f v with
  | ok w => exact ⟨w, rfl⟩
  | error reason =>
      obtain ⟨h', hi, hv'⟩ := MemoryStore.exists_intern hm hv
      have hwithin : (trap v (.map f)).Within
          ⟨fun _ => True, test, map, (· ∈ m.toStore.nodes)⟩ :=
        ⟨trivial, trivial, ⟨hf, trivial⟩, trivial⟩
      have hcompile := compile_trap hi (.map f) fun _ _ => by rw [Path.lower]
      exact (not_simplifiesSafely hv' hwithin hcompile (Plan.settled_map h' f)
        (Plan.estimate_map h' f) (Plan.feed_map hv' hr) hsafe).elim

theorem SimplifiesSafely.of_total {m : MemoryStore} (hm : m.Addressable)
    {test : ValueTest → Prop} {map : ValueMap → Prop} (htest : ∀ f, test f → m.toStore.Total f)
    (hmap : ∀ f, map f → m.toStore.Total f) : SimplifiesSafely m test map := by
  intro config path hpath _ hok
  have hs := MemoryStore.coherent hm
  cases hplan : (prepare ⟨m.toStore, { config with optimize := true }⟩ path .never).1 with
  | error e =>
      rw [hplan] at hok
      cases hok
  | ok plan =>
      have hnormal : Plan.normalize m.toStore config.maxPasses
          (path.compile m.toStore config.bindings) .never = (.ok plan, .never) :=
        Prod.ext hplan (Plan.passesLeft_never ..)
      have hp := Plan.within_normalize
        (Path.within_compile (fun _ _ => hs.mem_of_intern) hpath _) hnormal
      have hle : Allowance.Le ⟨fun _ => True, test, map, (· ∈ m.toStore.nodes)⟩
          m.toStore.harmless := ⟨fun _ _ => trivial, htest, hmap, fun _ hh => hh⟩
      exact isOk_collect hs hplan (Plan.Within.mono hle plan hp)

/-- Simplifying plans turns no success into a failure exactly if no callback fails on a value that
the store holds. -/
theorem simplifiesSafely_iff (m : MemoryStore) (hm : m.Addressable) (test : ValueTest → Prop)
    (map : ValueMap → Prop) :
    SimplifiesSafely m test map ↔
      (∀ f, test f → m.toStore.Total f) ∧ ∀ f, map f → m.toStore.Total f := by
  constructor
  · intro hsafe
    exact ⟨fun f hf => hsafe.total_test hm hf, fun f hf => hsafe.total_map hm hf⟩
  · intro htotal
    exact .of_total hm htotal.1 htotal.2

/-- Tests of references never fail. -/
theorem social_simplifiesSafely :
    SimplifiesSafely .social (· = fun v => .ok v.isReference) fun _ => False := by
  refine (simplifiesSafely_iff .social ⟨by decide +kernel, by decide +kernel⟩ _ _).2
    ⟨fun f hf h v _ => ?_, fun _ hf => hf.elim⟩
  rw [hf]
  exact ⟨_, rfl⟩

def refuseStrings : ValueTest
  | .str s => .error ("bad string: " ++ s)
  | _ => .ok true

def numbersAndString : MemoryStore :=
  (((MemoryStore.empty.addValue (.int 1)).2.addValue (.int 2)).2.addValue (.str "x")).2

/-- Scanned, the test meets the numbers only. Once the string drives, it is probed with the
string. -/
theorem refused_candidate :
    let path : Path := .mk (.values [.int 1, .int 2]) [.filter refuseStrings, .is [.str "x"]]
    collect ⟨numbersAndString.toStore, { optimize := false }⟩ path none .never =
        (.ok [], .never) ∧
      (prepare ⟨numbersAndString.toStore, { optimize := true }⟩ path .never).1.isOk ∧
      collect ⟨numbersAndString.toStore, { optimize := true }⟩ path none .never =
        (.error (.callback "bad string: x"), .never) := by
  intro path
  let numbers : Plan := .filter (.ofValues numbersAndString.toStore [.int 1, .int 2]) refuseStrings
  let strings : Plan := .ofValues numbersAndString.toStore [.str "x"]
  have hcompile : path.compile numbersAndString.toStore .first = .and [numbers, strings] 0 := by
    simp [path, numbers, strings, Path.compile, Path.build, Path.buildOps, Path.lower]
  have hplain : (prepare ⟨numbersAndString.toStore, { optimize := false }⟩ path .never).1 =
      .ok (.and [numbers, strings] 0) := congrArg Except.ok hcompile
  have hsimple : (prepare ⟨numbersAndString.toStore, { optimize := true }⟩ path .never).1 =
      .ok (.and [numbers, strings] 1) := by
    show (Plan.normalize _ 16 (path.compile numbersAndString.toStore .first) .never).1 = _
    rw [hcompile]
    have hlt : (strings.estimate numbersAndString.toStore).size.value <
        (numbers.estimate numbersAndString.toStore).size.value := by decide +kernel
    rw [Plan.normalize_pair ⟨rfl, rfl, rfl, rfl⟩ ⟨rfl, rfl, rfl, rfl⟩ hlt 14]
  refine ⟨?_, by rw [hsimple]; rfl, ?_⟩
  · rw [collect_eq rfl rfl hplain]
    rfl
  · rw [collect_eq rfl rfl hsimple]
    rfl

end Session

end GraphQuery
