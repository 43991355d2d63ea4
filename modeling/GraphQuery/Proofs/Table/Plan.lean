import GraphQuery.Proofs.Table.Join

/-!
# The tables of plans

A plan that cannot fail, and whose limits are steady, shows the table that its operators make of the
tables of its operands.
-/

namespace GraphQuery

/-- Harmless, and limits are no bound. -/
def QuadStore.unlimited (store : QuadStore) : Allowance where
  limit n := n = 0
  test := store.Total
  map := store.Total
  literal h := h ∈ store.nodes

theorem QuadStore.unlimited_le (store : QuadStore) : store.unlimited.Le store.harmless where
  limit _ _ := trivial
  test _ ht := ht
  map _ hf := hf
  literal _ hh := hh

namespace Table

/-! ## Closures -/

theorem queued_ofRows (tagsAt : Tags → Tags) (queue : Reached) (rows : List Row) :
    Feed.queued tagsAt queue (.ofRows rows) =
      .ofRows (queue.map (fun p => ⟨p.1, [tagsAt p.2]⟩) ++ rows) := by
  induction queue with
  | nil => rfl
  | cons p queue ih =>
      rw [Feed.queued, ih]
      rfl

/-- Levels that cannot fail are rows. -/
theorem exists_rows_levels {ok : Handle → Prop} {bindings : ClosureBindings} {maxDepth : Nat}
    {tagsAt : Nat → Tags → Tags} {expand : Reached → Delivered}
    (he : Feed.SafeExpansion ok expand) (seen frontier : Reached) (depth : Nat)
    (hf : ∀ p ∈ frontier, ok p.1) :
    ∃ rows, Feed.levels bindings maxDepth tagsAt expand seen frontier depth = .ofRows rows := by
  induction seen, frontier, depth using Feed.levels.induct bindings maxDepth expand with
  | case1 seen frontier depth hopen e herr =>
      rw [(he frontier hf).1] at herr
      simp at herr
  | case2 seen frontier depth hopen hnone l hshown =>
      refine ⟨[], ?_⟩
      rw [Feed.levels, dif_pos hopen, hnone]
      simp only
      rw [if_pos hshown]
      rfl
  | case3 seen frontier depth hopen hnone l hshown ih =>
      obtain ⟨rows, hrows⟩ :=
        ih (Level.forall_ofRows (he frontier hf).2 bindings seen frontier).2
      refine ⟨l.shown.map (fun p => ⟨p.1, [tagsAt (depth + 1) p.2]⟩) ++ rows, ?_⟩
      rw [Feed.levels, dif_pos hopen, hnone]
      simp only
      rw [if_neg hshown, hrows, queued_ofRows]
  | case4 seen frontier depth hclosed =>
      exact ⟨[], by rw [Feed.levels, dif_neg hclosed]; rfl⟩

/-- Everything that is reached from the rows, level after level. -/
def closure (T : Table) (bindings : ClosureBindings) (maxDepth : Nat)
    (tagsAt : Nat → Tags → Tags) (expand : Reached → Delivered) : Table :=
  recorded ((Feed.ofRows T.rows).closure bindings maxDepth tagsAt expand).delivered.rows

theorem closure_eq {T : Table} {ok : Handle → Prop} {bindings : ClosureBindings} {maxDepth : Nat}
    {tagsAt : Nat → Tags → Tags} {expand : Reached → Delivered} (hT : SafeRows ok T.rows)
    (he : Feed.SafeExpansion ok expand) :
    Meaning.ofFeed (T.meaning.feed.closure bindings maxDepth tagsAt expand) =
      (T.closure bindings maxDepth tagsAt expand).meaning := by
  obtain ⟨rows, hrows⟩ : ∃ rows, (Feed.ofRows T.rows).closure bindings maxDepth tagsAt expand =
      .ofRows rows := by
    unfold Feed.closure
    rw [Feed.delivered_ofRows]
    exact exists_rows_levels he _ _ _ (Reached.forall_ofRows hT)
  unfold closure
  rw [hrows, Feed.delivered_ofRows, ← ofFeed_eq, ← hrows]
  rfl

end Table

namespace Plan

mutual

def table (store : QuadStore) : Plan → Table
  | .fixed handles => .leaf handles.toList handles.contains
  | .null | .input => .leaf [] fun _ => false
  | .all => .leaf store.nodes store.containsNode
  | .and operands primary => .join (tables store operands) (driver operands primary)
  | .or operands => .concat (tables store operands)
  | .not forbidden whole => (table store whole).filter (table store forbidden).lacks
  | .unique p => .recorded (Table.firstRows (table store p).rows [])
  | .save p names => (table store p).naming names
  | .limit p n => (table store p).limit n
  | .skip p n => (table store p).skip n
  | .sort p => (table store p).sorted store
  | .step source fromEnd toEnd via names labels =>
      (table store source).step ⟨store, fromEnd, toEnd⟩
        ⟨(tableOption store via).map Table.sets, names,
          (tableOption store labels).map Table.sets⟩
  | .filter p test => (table store p).filter (Table.accepts store test)
  | .map p f => .recorded (Table.imageRows store f (table store p).rows)
  | .constraint p cs =>
      (table store p).filter (Table.accepts store fun v => .ok (cs.all (·.holds v)))
  | .recursive p morphism maxDepth depthNames bindings =>
      (table store p).closure bindings maxDepth (Closure.tagsAt store depthNames)
        fun frontier => (meaningOn store (.level frontier) morphism).feed.delivered

def tables (store : QuadStore) : List Plan → List Table
  | [] => []
  | p :: ps => table store p :: tables store ps

def tableOption (store : QuadStore) : Option Plan → Option Table
  | none => none
  | some p => some (table store p)

end

mutual

/-- Wherever the plan limits results, the limit is steady at the rows that a drain delivers. -/
def Steady (store : QuadStore) : Plan → Prop
  | .fixed _ | .null | .all | .input => True
  | .and operands _ | .or operands => SteadyAll store operands
  | .not forbidden whole => Steady store forbidden ∧ Steady store whole
  | .unique p | .save p _ | .skip p _ | .sort p | .filter p _ | .map p _ | .constraint p _
  | .recursive p _ _ _ _ => Steady store p
  | .limit p n =>
      (∀ rows, (p.roles store).scanner.report .never = (.ok rows, .never) → SteadyAt n rows) ∧
        Steady store p
  | .step source _ _ via _ labels =>
      Steady store source ∧ SteadyOption store via ∧ SteadyOption store labels

def SteadyAll (store : QuadStore) : List Plan → Prop
  | [] => True
  | p :: ps => Steady store p ∧ SteadyAll store ps

def SteadyOption (store : QuadStore) : Option Plan → Prop
  | none => True
  | some p => Steady store p

end

theorem tables_eq (store : QuadStore) (ps : List Plan) :
    tables store ps = ps.map (table store) := by
  induction ps with
  | nil => rfl
  | cons p ps ih => rw [tables, ih, List.map_cons]

variable {store : QuadStore}

abbrev noHole : Meaning :=
  .leaf [] fun _ => false

theorem safe_noHole : noHole.Safe (· ∈ store.nodes) :=
  Meaning.safe_leaf (by simp)

theorem safeRows_of_eq (hs : store.Coherent) {p : Plan} (hp : p.Within store.harmless)
    (heq : p.meaning store = (p.table store).meaning) :
    SafeRows (· ∈ store.nodes) (p.table store).rows := by
  have hsafe := (safe_on hs safe_noHole p hp).feed
  rw [show p.meaningOn store noHole = _ from heq] at hsafe
  exact Feed.safeRows_of_safe hsafe

theorem testing_eq (hs : store.Coherent) {T : Table} (hT : SafeRows (· ∈ store.nodes) T.rows)
    {test : ValueTest} (ht : store.Total test) :
    T.meaning.sieve (verdictOn store test fun h => .failed (.unknownHandle h))
        (verdictOn store test fun _ => .nothing) =
      (T.filter (Table.accepts store test)).meaning := by
  refine Table.sieve_eq (fun r hr => Table.verdictOn_eq ht fun hnone => ?_)
    fun h => Table.verdictOn_eq ht fun _ => rfl
  obtain ⟨v, hv⟩ := hs.exists_value (hT r hr).1
  rw [hnone] at hv
  simp at hv

theorem report_of_eq {p : Plan} (heq : p.meaning store = (p.table store).meaning) :
    (p.roles store).scanner.report .never = (.ok (p.table store).rows, .never) := by
  have hreport := (p.realizes store).shows.report
  rw [heq] at hreport
  simpa only [Table.meaning, Feed.delivered_ofRows] using hreport

mutual

/-- A plan that cannot fail, and whose limits are steady, shows its table. -/
theorem meaning_eq_table (hs : store.Coherent) :
    ∀ p : Plan, p.Within store.harmless → p.Steady store → p.meaning store = (p.table store).meaning
  | .fixed handles, _, _ => Table.leaf_eq handles.toList handles.contains
  | .null, _, _ | .input, _, _ => Table.leaf_eq [] fun _ => false
  | .all, _, _ => Table.leaf_eq store.nodes store.containsNode
  | .and operands primary, hp, ht => by
      obtain ⟨hall, hne⟩ := meaningOfAll_eq hs operands hp ht
      show Meaning.join (meaningOfAll store noHole operands) (driver operands primary) = _
      rw [hall, Table.join_eq hne]
      rfl
  | .or operands, hp, ht => by
      show Meaning.union (meaningOfAll store noHole operands) = _
      rw [(meaningOfAll_eq hs operands hp ht).1, Table.concat_eq]
      rfl
  | .not forbidden whole, hp, ht => by
      have hf := meaning_eq_table hs forbidden hp.1 ht.1
      have hw := meaning_eq_table hs whole hp.2 ht.2
      show (whole.meaning store).sieve (fun h => ((forbidden.meaning store).reply h).forbid)
        (fun h => ((forbidden.meaning store).reply h).forbid) = _
      rw [hf, hw]
      exact Table.sieve_eq (fun r _ => Table.forbid_eq _ _) fun h => Table.forbid_eq _ _
  | .unique p, hp, ht => by
      show Meaning.ofFeed (p.meaning store).feed.firsts = _
      rw [meaning_eq_table hs p hp ht]
      exact (congrArg Meaning.ofFeed (Table.firsts_ofRows _)).trans (Table.ofFeed_eq _)
  | .save p names, hp, ht => by
      show (p.meaning store).naming names = _
      rw [meaning_eq_table hs p hp ht, Table.naming_eq]
      rfl
  | .limit p n, hp, ht => by
      have heq := meaning_eq_table hs p hp.2 ht.2
      have hne : ∀ r ∈ (p.table store).rows, r.sets ≠ [] := fun r hr =>
        (safeRows_of_eq hs hp.2 heq r hr).2
      show (p.meaning store).paged n ((p.meaning store).feed.limit n 0) = _
      rw [heq, Table.limit_eq hne (ht.1 _ (report_of_eq heq))]
      rfl
  | .skip p n, hp, ht => by
      show (p.meaning store).paged n ((p.meaning store).feed.skip n) = _
      rw [meaning_eq_table hs p hp ht, Table.skip_eq]
      rfl
  | .sort p, hp, ht => by
      have hp : p.Within store.harmless := hp
      have heq := meaning_eq_table hs p hp ht
      show (p.meaning store).sorted store = _
      rw [heq]
      exact Table.sorted_eq fun r hr =>
        if_pos ((hs.resolve_iff r.handle).2 ((safeRows_of_eq hs hp heq) r hr).1)
  | .step source fromEnd toEnd via names labels, hp, ht => by
      have heq := meaning_eq_table hs source hp.1 ht.1
      have hsource := safeRows_of_eq hs hp.1 heq
      show (source.meaning store).step ⟨store, fromEnd, toEnd⟩
        ⟨(meaningOfOption store noHole via).map Meaning.reply, names,
          (meaningOfOption store noHole labels).map Meaning.reply⟩ = _
      rw [heq, meaningOfOption_eq hs via hp.2.1 ht.2.1, meaningOfOption_eq hs labels hp.2.2 ht.2.2,
        Option.map_map, Option.map_map]
      have := Table.step_eq (fun r hr => (hsource r hr).2) ⟨store, fromEnd, toEnd⟩
        ⟨(tableOption store via).map Table.sets, names, (tableOption store labels).map Table.sets⟩
      unfold QuadSets.replies at this
      rw [Option.map_map, Option.map_map] at this
      exact this
  | .filter p test, hp, ht => by
      have heq := meaning_eq_table hs p hp.2 ht
      show (p.meaning store).sieve (verdictOn store test fun h => .failed (.unknownHandle h))
        (verdictOn store test fun _ => .nothing) = _
      rw [heq]
      exact testing_eq hs (safeRows_of_eq hs hp.2 heq) hp.1
  | .map p f, hp, ht => by
      have heq := meaning_eq_table hs p hp.2 ht
      have hrows := safeRows_of_eq hs hp.2 heq
      show Meaning.ofFeed ((p.meaning store).feed.mapped store f) = _
      rw [heq]
      have hmapped : (Feed.ofRows (p.table store).rows).mapped store f =
          .ofRows (Table.imageRows store f (p.table store).rows) :=
        Table.mapped_ofRows fun r hr => imageOf_ne_failed hs hp.1 (hrows r hr).1
      exact (congrArg Meaning.ofFeed hmapped).trans (Table.ofFeed_eq _)
  | .constraint p cs, hp, ht => by
      have hp : p.Within store.harmless := hp
      have heq := meaning_eq_table hs p hp ht
      show (p.meaning store).sieve
        (verdictOn store (fun v => .ok (cs.all (·.holds v))) fun h => .failed (.unknownHandle h))
        (verdictOn store (fun v => .ok (cs.all (·.holds v))) fun _ => .nothing) = _
      rw [heq]
      exact testing_eq hs (safeRows_of_eq hs hp heq) fun h v _ => ⟨_, rfl⟩
  | .recursive p morphism maxDepth depthNames bindings, hp, ht => by
      have heq := meaning_eq_table hs p hp.1 ht
      show Meaning.ofFeed ((p.meaning store).feed.closure bindings maxDepth
        (Closure.tagsAt store depthNames)
        fun frontier => (meaningOn store (.level frontier) morphism).feed.delivered) = _
      rw [heq]
      exact Table.closure_eq (safeRows_of_eq hs hp.1 heq) fun frontier hf =>
        (safe_on hs (Meaning.safe_level hf) morphism hp.2).feed.delivered

theorem meaningOfAll_eq (hs : store.Coherent) :
    ∀ ps : List Plan, WithinAll store.harmless ps → SteadyAll store ps →
      meaningOfAll store noHole ps = (tables store ps).map Table.meaning ∧
        ∀ T ∈ tables store ps, ∀ r ∈ T.rows, r.sets ≠ []
  | [], _, _ => ⟨rfl, by simp [tables]⟩
  | p :: ps, hp, ht => by
      have heq := meaning_eq_table hs p hp.1 ht.1
      have hrest := meaningOfAll_eq hs ps hp.2 ht.2
      refine ⟨congrArg₂ _ heq hrest.1, fun T hT r hr => ?_⟩
      rcases List.mem_cons.1 hT with rfl | hT
      · exact ((safeRows_of_eq hs hp.1 heq) r hr).2
      · exact hrest.2 T hT r hr

theorem meaningOfOption_eq (hs : store.Coherent) :
    ∀ p : Option Plan, WithinOption store.harmless p → SteadyOption store p →
      meaningOfOption store noHole p = (tableOption store p).map Table.meaning
  | none, _, _ => rfl
  | some p, hp, ht => congrArg some (meaning_eq_table hs p hp ht)

end

/-- A plan that shows its table: it cannot fail, and its limits are steady. -/
structure Tabular (store : QuadStore) (p : Plan) : Prop where
  within : p.Within store.harmless
  steady : p.Steady store

theorem Tabular.meaning_eq (hs : store.Coherent) {p : Plan} (hp : p.Tabular store) :
    p.meaning store = (p.table store).meaning :=
  meaning_eq_table hs p hp.within hp.steady

theorem Tabular.safeRows (hs : store.Coherent) {p : Plan} (hp : p.Tabular store) :
    SafeRows (· ∈ store.nodes) (p.table store).rows :=
  safeRows_of_eq hs hp.within (hp.meaning_eq hs)

theorem Tabular.report (hs : store.Coherent) {p : Plan} (hp : p.Tabular store) :
    (p.roles store).scanner.report .never = (.ok (p.table store).rows, .never) :=
  report_of_eq (hp.meaning_eq hs)

theorem steadyAll_iff {ps : List Plan} : SteadyAll store ps ↔ ∀ p ∈ ps, p.Steady store := by
  induction ps with
  | nil => simp [SteadyAll]
  | cons p ps ih => simp [SteadyAll, ih]

theorem steadyOption_iff {p : Option Plan} : SteadyOption store p ↔ ∀ q ∈ p, q.Steady store := by
  cases p <;> simp [SteadyOption]

theorem hereditary_steady (store : QuadStore) : Hereditary (Steady store) where
  null := trivial
  all := trivial
  fixed _ _ _ := trivial
  and := steadyAll_iff
  or := steadyAll_iff
  not := .rfl
  unique := .rfl
  save := .rfl
  skip := .rfl
  sort := .rfl
  constraint := .rfl
  step := and_congr .rfl (and_congr steadyOption_iff steadyOption_iff)

theorem tabular_iff {p : Plan} : p.Tabular store ↔ p.Within store.harmless ∧ p.Steady store :=
  ⟨fun hp => ⟨hp.within, hp.steady⟩, fun hp => ⟨hp.1, hp.2⟩⟩

theorem hereditary_tabular (store : QuadStore) : Hereditary (Tabular store) := by
  have hboth := (hereditary_within store.harmless).inter (hereditary_steady store)
  rwa [show (fun p => p.Within store.harmless ∧ p.Steady store) = Tabular store from
    funext fun p => propext tabular_iff.symm] at hboth

theorem inherited_tabular (store : QuadStore) : Inherited (Tabular store) :=
  (hereditary_tabular store).toInherited

/-- A limit shows a table if it is steady at the rows of the table below it. -/
theorem tabular_limit_iff (hs : store.Coherent) {p : Plan} {n : Nat} :
    (Plan.limit p n).Tabular store ↔ p.Tabular store ∧ SteadyAt n (p.table store).rows := by
  constructor
  · rintro ⟨⟨-, hwithin⟩, hn, hsteady⟩
    have hp : p.Tabular store := ⟨hwithin, hsteady⟩
    exact ⟨hp, hn _ (hp.report hs)⟩
  · rintro ⟨hp, hn⟩
    refine ⟨⟨trivial, hp.within⟩, fun rows hrows => ?_, hp.steady⟩
    obtain rfl : (p.table store).rows = rows := by
      rw [hp.report hs] at hrows
      simpa using hrows
    exact hn

/-- Stacked limits that are steady come to a steady one. -/
theorem Tabular.limit_limit (hs : store.Coherent) {p : Plan} {m n : Nat}
    (hp : (Plan.limit (.limit p m) n).Tabular store) :
    (Plan.limit p (if m = 0 then n else min m n)).Tabular store := by
  obtain ⟨hinner, hn⟩ := (tabular_limit_iff hs).1 hp
  obtain ⟨hp, hm⟩ := (tabular_limit_iff hs).1 hinner
  refine (tabular_limit_iff hs).2 ⟨hp, ?_⟩
  have hn : SteadyAt n ((p.table store).limit m).rows := hn
  unfold Table.limit at hn
  split at hn
  · rename_i hzero
    rwa [if_pos hzero]
  · rename_i hpos
    rw [if_neg hpos]
    exact hm.stacked (fun r hr => (hp.safeRows hs r hr).2) hn

mutual

/-- A plan without limits has none that is not steady. -/
theorem steady_of_unlimited : ∀ p : Plan, p.Within store.unlimited → p.Steady store
  | .fixed _, _ | .null, _ | .all, _ | .input, _ => trivial
  | .and operands _, hp | .or operands, hp => steadyAll_of_unlimited operands hp
  | .not forbidden whole, hp =>
      ⟨steady_of_unlimited forbidden hp.1, steady_of_unlimited whole hp.2⟩
  | .unique p, hp | .save p _, hp | .skip p _, hp | .sort p, hp | .constraint p _, hp =>
      steady_of_unlimited p hp
  | .filter p _, hp | .map p _, hp => steady_of_unlimited p hp.2
  | .recursive p _ _ _ _, hp => steady_of_unlimited p hp.1
  | .limit p n, hp => by
      obtain ⟨hn, hp⟩ := hp
      obtain rfl : n = 0 := hn
      exact ⟨fun rows _ => .zero rows, steady_of_unlimited p hp⟩
  | .step source _ _ via _ labels, hp =>
      ⟨steady_of_unlimited source hp.1, steadyOption_of_unlimited via hp.2.1,
        steadyOption_of_unlimited labels hp.2.2⟩

theorem steadyAll_of_unlimited :
    ∀ ps : List Plan, WithinAll store.unlimited ps → SteadyAll store ps
  | [], _ => trivial
  | p :: ps, hp => ⟨steady_of_unlimited p hp.1, steadyAll_of_unlimited ps hp.2⟩

theorem steadyOption_of_unlimited :
    ∀ p : Option Plan, WithinOption store.unlimited p → SteadyOption store p
  | none, _ => trivial
  | some p, hp => steady_of_unlimited p hp

end

theorem tabular_of_unlimited {p : Plan} (hp : p.Within store.unlimited) : p.Tabular store :=
  ⟨Within.mono store.unlimited_le p hp, steady_of_unlimited p hp⟩

end Plan

end GraphQuery
