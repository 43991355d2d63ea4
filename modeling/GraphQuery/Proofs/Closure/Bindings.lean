import GraphQuery.Proofs.Closure.Course
import GraphQuery.Proofs.Closure.Nearest

/-!
# Closures that show all bindings

A closure of a path that walks and restricts, showing all bindings, shows a handle again under each
binding set that is new to it, but never under the same one. It meets each handle first where a
closure of first bindings does, and passes on every binding set that it met the handle with there.
-/

namespace GraphQuery

namespace Emission

/-- The depth at which a handle is emitted first. -/
def firstDepth (es : List Emission) (x : Handle) : Option Nat :=
  (es.find? (·.handle = x)).map depth

theorem firstDepth_append (es fs : List Emission) (x : Handle) :
    firstDepth (es ++ fs) x = (firstDepth es x).or (firstDepth fs x) := by
  simp only [firstDepth, List.find?_append]
  cases es.find? (·.handle = x) <;> rfl

/-- What a level shows first has its depth. -/
theorem firstDepth_ofQueue_append (depth : Nat) (queue : Reached) (es : List Emission)
    (x : Handle) : firstDepth (ofQueue depth queue ++ es) x =
      if x ∈ queue.handles then some depth else firstDepth es x := by
  rw [firstDepth_append]
  cases hfind : (ofQueue depth queue).find? (·.handle = x) with
  | none =>
      have hx : x ∉ queue.handles := by
        rw [← map_handle_ofQueue depth queue, List.mem_map]
        rintro ⟨e, he, hex⟩
        simpa [hex] using List.find?_eq_none.1 hfind e he
      rw [if_neg hx, firstDepth, hfind]
      rfl
  | some e =>
      have he := List.mem_of_find?_eq_some hfind
      have hex : e.handle = x := by simpa using List.find?_some hfind
      have hx : x ∈ queue.handles := by
        rw [← map_handle_ofQueue depth queue, List.mem_map]
        exact ⟨e, he, hex⟩
      rw [if_pos hx, firstDepth, hfind, Option.map_some, (mem_ofQueue.1 he).1]
      rfl

end Emission

/-! ## By levels -/

/-- Emissions beyond a depth, each under a binding set of a seed that is so many steps away. A
handle that was not seen is emitted first at its distance. -/
structure ByLevel (R : Handle → Handle → Prop) (seeds : Reached) (maxDepth depth : Nat)
    (seen : Reached) (es : List Emission) : Prop where
  carried : ∀ e ∈ es, ∃ s, (s, e.inherited) ∈ seeds ∧ ReachedIn R e.depth s e.handle
  first_iff : ∀ y ∉ seen.handles, ∀ k, Emission.firstDepth es y = some k ↔
    depth < k ∧ (maxDepth = 0 ∨ k ≤ maxDepth) ∧ Distance R (· ∈ seeds.handles) y k

section ByLevel

variable {R : Handle → Handle → Prop} {ok : Handle → Prop} {seeds seen frontier : Reached}
  {maxDepth depth : Nat} {expand : Reached → Delivered} {candidates : Reached} {l : Level}
  {es : List Emission}

theorem byLevel_nil (hnone : ∀ y k, depth < k → (maxDepth = 0 ∨ k ≤ maxDepth) →
    ¬ Distance R (· ∈ seeds.handles) y k) : ByLevel R seeds maxDepth depth seen [] where
  carried := by simp
  first_iff y _ k := by
    simp only [Emission.firstDepth, List.find?_nil, Option.map_none, reduceCtorEq, false_iff]
    rintro ⟨hk, hmax, hd⟩
    exact hnone y k hk hmax hd

/-- The emissions of a level come before those of the levels after it. -/
theorem ByLevel.append_level (h : ByLevel R seeds maxDepth (depth + 1) l.seen es)
    (hl : Level.Made seen candidates l) (hopen : maxDepth = 0 ∨ depth < maxDepth)
    (hshown : ∀ p ∈ l.shown, ∃ s, (s, p.2) ∈ seeds ∧ ReachedIn R (depth + 1) s p.1)
    (hfresh : ∀ y, y ∈ l.fresh.handles ↔ Distance R (· ∈ seeds.handles) y (depth + 1)) :
    ByLevel R seeds maxDepth depth seen (Emission.ofQueue (depth + 1) l.shown ++ es) := by
  refine ⟨fun e he => ?_, fun y hy k => ?_⟩
  · rcases List.mem_append.1 he with he | he
    · obtain ⟨hdepth, hp⟩ := Emission.mem_ofQueue.1 he
      rw [hdepth]
      exact hshown _ hp
    · exact h.carried e he
  · have hknown : y ∈ l.seen.handles ↔ y ∈ l.shown.handles := by
      simp [hl.grown, Reached.handles_append, hy]
    have hdistance : y ∈ l.shown.handles ↔ Distance R (· ∈ seeds.handles) y (depth + 1) := by
      rw [← hfresh, hl.mem_handles_fresh, hknown, and_iff_left hy]
    rw [Emission.firstDepth_ofQueue_append]
    by_cases hlevel : y ∈ l.shown.handles
    · rw [if_pos hlevel]
      have hd := hdistance.1 hlevel
      constructor
      · rintro ⟨⟩
        exact ⟨Nat.lt_succ_self depth, hopen.imp_right id, hd⟩
      · rintro ⟨-, -, hk⟩
        rw [hd.unique hk]
    · rw [if_neg hlevel, h.first_iff y (mt hknown.1 hlevel) k]
      refine and_congr_left fun ⟨_, hk⟩ => ⟨Nat.lt_of_succ_lt, fun hlt => ?_⟩
      exact Nat.lt_of_le_of_ne hlt fun heq => hlevel (hdistance.2 (heq ▸ hk))

/-- Whichever bindings are shown, a run goes by distance. -/
theorem Nearest.byLevel (bindings : ClosureBindings) (he : Feed.SafeExpansion ok expand)
    (ht : Feed.Traces R ok expand) (h : Nearest R seeds depth seen frontier)
    (hf : ∀ p ∈ frontier, ok p.1) :
    ByLevel R seeds maxDepth depth seen (Emission.ofLevels depth
      (LevelRun.onward bindings maxDepth expand seen frontier depth).levels) := by
  revert h hf
  refine LevelRun.onward_induct (P := fun seen frontier depth ls =>
    Nearest R seeds depth seen frontier → (∀ p ∈ frontier, ok p.1) →
      ByLevel R seeds maxDepth depth seen (Emission.ofLevels depth ls)) ?_ ?_ seen frontier depth
  · intro seen frontier depth hclosed h hf
    exact byLevel_nil fun y k hk hmax =>
      h.not_beyond (fun hne hopen => hclosed hne hopen (he frontier hf).1) hk hmax
  · intro seen frontier depth ls _ hopen l ih h hf
    obtain ⟨hshown, hnext⟩ := h.level bindings ht hf
    have hok := Level.forall_ofRows (he frontier hf).2 bindings seen frontier
    exact (ih hnext hok.2).append_level (Level.made_ofRows bindings seen frontier _) hopen hshown
      hnext.frontier_iff

end ByLevel

/-! ## All that is passed on -/

/-- A handle has been met with a binding set by this depth: it was seen with it, or it is emitted
with it there or before. -/
def MetBy (seen : Reached) (es : List Emission) (depth : Nat) (p : Handle × Tags) : Prop :=
  p ∈ seen ∨ ∃ e ∈ es, e.pair = p ∧ e.depth ≤ depth

/-- What is one step from the frontier, or from a handle where it is emitted first, is met by the
next depth with every binding set that is passed on. -/
structure PassesOn (R : Handle → Handle → Prop) (maxDepth depth : Nat) (seen frontier : Reached)
    (es : List Emission) : Prop where
  next : (maxDepth = 0 ∨ depth + 1 ≤ maxDepth) → ∀ p ∈ frontier, ∀ y, R p.1 y →
    MetBy seen es (depth + 1) (y, p.2)
  further : ∀ e ∈ es, e.handle ∉ seen.handles → Emission.firstDepth es e.handle = some e.depth →
    (maxDepth = 0 ∨ e.depth + 1 ≤ maxDepth) → ∀ y, R e.handle y →
    MetBy seen es (e.depth + 1) (y, e.inherited)

section PassesOn

variable {R : Handle → Handle → Prop} {ok : Handle → Prop} {seen frontier : Reached}
  {maxDepth depth : Nat} {expand : Reached → Delivered} {candidates : Reached} {l : Level}
  {es : List Emission}

/-- What the levels after it have seen or emitted, a level has seen, or it is emitted. -/
theorem MetBy.append_level {k : Nat} {p : Handle × Tags} (hl : Level.Made seen candidates l)
    (hk : depth ≤ k) (h : MetBy l.seen es k p) :
    MetBy seen (Emission.ofQueue depth l.shown ++ es) k p := by
  rcases h with hp | ⟨e, he, rfl, hle⟩
  · rw [hl.grown, List.mem_append] at hp
    refine hp.imp_right fun hp => ⟨⟨depth, p.1, p.2⟩, ?_, rfl, hk⟩
    exact List.mem_append_left _ (Emission.mem_ofQueue.2 ⟨rfl, hp⟩)
  · exact .inr ⟨e, List.mem_append_right _ he, rfl, hle⟩

theorem PassesOn.append_level (h : PassesOn R maxDepth (depth + 1) l.seen l.fresh es)
    (hl : Level.Made seen candidates l) (hdeeper : ∀ e ∈ es, depth + 1 < e.depth)
    (hknown : ∀ p ∈ frontier, ∀ y, R p.1 y → (y, p.2) ∈ l.seen) :
    PassesOn R maxDepth depth seen frontier (Emission.ofQueue (depth + 1) l.shown ++ es) := by
  refine ⟨fun _ p hp y hy => ?_, fun e he hnew hfirst hmax y hy => ?_⟩
  · exact .append_level hl (Nat.le_refl _) (.inl (hknown p hp y hy))
  · rw [Emission.firstDepth_ofQueue_append] at hfirst
    rcases List.mem_append.1 he with he | he
    · -- A handle that this level has shown first is in the next frontier.
      obtain ⟨hdepth, hp⟩ := Emission.mem_ofQueue.1 he
      rw [hdepth] at hmax ⊢
      have hfresh : e.pair ∈ l.fresh := hl.mem_fresh.2 ⟨hp, hnew⟩
      exact .append_level hl (by omega) (h.next hmax e.pair hfresh y hy)
    · have hdepth := hdeeper e he
      have hshown : e.handle ∉ l.shown.handles := by
        intro hmem
        rw [if_pos hmem] at hfirst
        have := Option.some.inj hfirst
        omega
      rw [if_neg hshown] at hfirst
      have hunseen : e.handle ∉ l.seen.handles := by
        rw [hl.grown, Reached.handles_append, List.mem_append]
        exact not_or.2 ⟨hnew, hshown⟩
      exact .append_level hl (by omega) (h.further e he hunseen hfirst hmax y hy)

/-- A run that shows all bindings passes on each of them from where its handle is met first. -/
theorem passesOn_onward (he : Feed.SafeExpansion ok expand) (ht : Feed.Traces R ok expand)
    (hf : ∀ p ∈ frontier, ok p.1) :
    PassesOn R maxDepth depth seen frontier (Emission.ofLevels depth
      (LevelRun.onward .all maxDepth expand seen frontier depth).levels) := by
  revert hf
  refine LevelRun.onward_induct (P := fun seen frontier depth ls => (∀ p ∈ frontier, ok p.1) →
    PassesOn R maxDepth depth seen frontier (Emission.ofLevels depth ls)) ?_ ?_ seen frontier depth
  · intro seen frontier depth hclosed hf
    refine ⟨fun hmax p hp => ?_, by simp [Emission.ofLevels]⟩
    exact (hclosed (List.ne_nil_of_mem hp) (hmax.imp_right id) (he frontier hf).1).elim
  · intro seen frontier depth ls _ _ l ih hf
    have hok := Level.forall_ofRows (he frontier hf).2 .all seen frontier
    refine (ih hok.2).append_level (Level.made_ofRows .all seen frontier _)
      (fun e => Emission.depth_lt_of_mem_ofLevels) fun p hp y hy => ?_
    exact Level.mem_seen_of_candidates seen frontier _ _ ((ht frontier hf y p.2).2 ⟨p.1, hp, hy⟩)

end PassesOn

namespace Plan

/-- What a closure of a path emits: the levels from the seeds on, none of which fails. -/
theorem emissions_closure {m : MemoryStore} (hm : m.Addressable) (inner : ClosureBindings)
    (scope : LabelScope) {path : Path} (hpath : path.Within m.toStore.unlimited) {seeds : Plan}
    {seedRows : List Row} (hseeds : SafeRows (· ∈ m.toStore.nodes) seedRows)
    (hrows : (seeds.roles m.toStore).scanner.report .never = (.ok seedRows, .never))
    (maxDepth : Nat) (names : List String) (bindings : ClosureBindings) :
    let morphism := path.build ⟨m.toStore, inner⟩ (scope.context m.toStore) (some .input)
    let es := Emission.ofLevels 0 (LevelRun.onward bindings maxDepth
      (Path.expansion m inner scope path) [] (.ofRows seedRows) 0).levels
    emissions m.toStore seeds morphism maxDepth names bindings = es ∧
    ((Plan.recursive seeds morphism maxDepth names bindings).roles
      m.toStore).scanner.report .never =
        (.ok (es.map (Emission.row (Closure.tagsAt m.toStore names))), .never) := by
  intro morphism es
  obtain ⟨hemissions, hreport⟩ :=
    emissions_eq m.toStore seeds morphism maxDepth names bindings hrows
  have hexpand := Path.safe_expansion hm inner scope hpath
  refine ⟨hemissions, hreport (LevelRun.error_onward _ (fun frontier hf => ?_) bindings maxDepth
    (Reached.forall_ofRows hseeds))⟩
  exact (hexpand frontier hf).imp_right fun hrows r hr => (hrows r hr).1

/-- A closure that shows all bindings repeats nothing, misses nothing and goes no other way. For a
path that walks and restricts, applied again and again to the results of seeds whose drain
succeeds: the drain of the closure succeeds and shows its emissions, level after level. It shows no
handle twice with the same inherited binding set, and shows each handle first at the depth at which
a closure of first bindings shows it. An inherited binding set is that of a seed exactly so many
steps away. What is one step from a seed is shown at the first level with each of the seed's
binding sets; what is one step from a handle where it is first shown is shown, there or before,
with each of the binding sets that the handle is shown with at that depth. -/
theorem closure_of_all_bindings (m : MemoryStore) (hm : m.Addressable) (scope : LabelScope)
    (hscope : scope.Unmarked) (inner : ClosureBindings) (path : Path) (htrace : path.IsTraceable)
    (hpath : path.Within m.toStore.unlimited) (seeds : Plan)
    (hseeds : seeds.Within m.toStore.native) (seedRows : List Row)
    (hrows : (seeds.roles m.toStore).scanner.report .never = (.ok seedRows, .never))
    (maxDepth : Nat) (names : List String) :
    let morphism := path.build ⟨m.toStore, inner⟩ (scope.context m.toStore) (some .input)
    let emitted := emissions m.toStore seeds morphism maxDepth names
    let R := path.LeadsToBy ⟨m.toStore, inner⟩ (scope.context m.toStore)
    let shownTags (e : Emission) := match m.intern (.int (.ofNat e.depth)) with
      | some depth => e.inherited.insertAll names depth
      | none => e.inherited
    (∀ bindings,
      ((Plan.recursive seeds morphism maxDepth names bindings).roles m.toStore).scanner.report
        .never = (.ok ((emitted bindings).map fun e => ⟨e.handle, [shownTags e]⟩), .never)) ∧
    ((emitted .all).map Emission.pair).Nodup ∧
    ((emitted .all).Pairwise fun e f => e.depth ≤ f.depth) ∧
    (∀ h, Emission.firstDepth (emitted .all) h = Emission.firstDepth (emitted .first) h) ∧
    (∀ e ∈ emitted .all, ∃ s ∈ seedRows, e.inherited ∈ s.sets ∧
      ReachedIn R e.depth s.handle e.handle) ∧
    (∀ s ∈ seedRows, ∀ t ∈ s.sets, ∀ y, R s.handle y →
      ∃ f ∈ emitted .all, f.pair = (y, t) ∧ f.depth ≤ 1) ∧
    (∀ e ∈ emitted .all, Emission.firstDepth (emitted .all) e.handle = some e.depth →
      (maxDepth = 0 ∨ e.depth + 1 ≤ maxDepth) → ∀ y, R e.handle y →
      ∃ f ∈ emitted .all, f.pair = (y, e.inherited) ∧ f.depth ≤ e.depth + 1) := by
  intro morphism emitted R shownTags
  have hsafe := safeRows_report (MemoryStore.coherent hm) hseeds hrows
  have hexpand := Path.safe_expansion hm inner scope hpath
  have htraces : Feed.Traces R (· ∈ m.toStore.nodes) (Path.expansion m inner scope path) :=
    Path.traces_level hm hscope htrace hpath
  have hfrontier := Reached.forall_ofRows hsafe
  have hclosure bindings :=
    emissions_closure hm inner scope hpath hsafe hrows maxDepth names bindings
  have hemitted bindings : emitted bindings = _ := (hclosure bindings).1
  -- Both closures start from the seeds, before which nothing was seen.
  have hlevels bindings : ByLevel R (.ofRows seedRows) maxDepth 0 [] (emitted bindings) :=
    hemitted bindings ▸ (nearest_seeds R _).byLevel bindings hexpand htraces hfrontier
  have hpasses : PassesOn R maxDepth 0 [] (.ofRows seedRows) (emitted .all) :=
    hemitted .all ▸ passesOn_onward hexpand htraces hfrontier
  have hunseen (y : Handle) : y ∉ Reached.handles [] := by simp [Reached.handles]
  refine ⟨fun bindings => ?_, ?_, ?_, fun h => ?_, fun e he => ?_, fun s hs t ht y hy => ?_,
    fun e he hfirst hmax y hy => ?_⟩
  · have hrow : Emission.row (Closure.tagsAt m.toStore names) =
        fun e => ⟨e.handle, [shownTags e]⟩ := by
      funext e
      rw [Emission.row, tagsAt_eq]
      rfl
    rw [(hclosure bindings).2, hemitted, hrow]
  · rw [hemitted]
    exact (unrepeated_onward .all maxDepth _ _ _ _).nodup
  · rw [hemitted]
    exact Emission.ordered_ofLevels _ 0
  · refine Option.ext fun k => ?_
    rw [(hlevels .all).first_iff h (hunseen h), (hlevels .first).first_iff h (hunseen h)]
  · obtain ⟨x, hx, hreached⟩ := (hlevels .all).carried e he
    obtain ⟨s, hs, rfl, ht⟩ := Reached.mem_ofRows.1 hx
    exact ⟨s, hs, ht, hreached⟩
  · have hseed : (s.handle, t) ∈ Reached.ofRows seedRows := Reached.mem_ofRows.2 ⟨s, hs, rfl, ht⟩
    exact (hpasses.next (by omega) _ hseed y hy).resolve_left (by simp)
  · exact (hpasses.further e he (hunseen _) hfirst hmax y hy).resolve_left (by simp)

/-- Whom Charlie and Dani lead to, but not by way of Bob, is shown once for each of the two that
leads to them. -/
theorem followed_from_each :
    let m := MemoryStore.social
    let path : Path := .mk .morphism
      [.outgoing (.values [.iri "follows"]) ["how"], .except (.mk (.values [.iri "bob"]) [])]
    let seeds : Plan := .save (.fixed (.ofList [.ofNat 4, .ofNat 5])) ["start"]
    let morphism := path.build ⟨m.toStore, .all⟩ {} (some .input)
    let emitted := emissions m.toStore seeds morphism 0 ["depth"]
    let R := path.LeadsToBy ⟨m.toStore, .all⟩ {}
    let start h := Tags.empty.insertAll ["start"] h
    ((emitted .all).map Emission.pair).Nodup ∧
    (∀ h, Emission.firstDepth (emitted .all) h = Emission.firstDepth (emitted .first) h) ∧
    (∀ e ∈ emitted .all, ∃ s ∈ [Handle.ofNat 4, .ofNat 5], e.inherited = start s ∧
      ReachedIn R e.depth s e.handle) ∧
    (∀ s ∈ [Handle.ofNat 4, .ofNat 5], ∀ y, R s y →
      ∃ f ∈ emitted .all, f.pair = (y, start s) ∧ f.depth ≤ 1) ∧
    (∀ e ∈ emitted .all, Emission.firstDepth (emitted .all) e.handle = some e.depth →
      ∀ y, R e.handle y →
      ∃ f ∈ emitted .all, f.pair = (y, e.inherited) ∧ f.depth ≤ e.depth + 1) := by
  intro m path seeds morphism emitted R start
  have hm : m.Addressable := ⟨by decide +kernel, by decide +kernel⟩
  have hliterals : ∀ h ∈ (HandleList.ofList [.ofNat 4, .ofNat 5]).toList, h ∈ m.toStore.nodes := by
    decide +kernel
  have hseeds : seeds.Within m.toStore.unlimited := hliterals
  have hrows := (realizes_table (MemoryStore.coherent hm) hseeds).report_scan
  obtain ⟨-, hnodup, -, hfirst, hcarried, hseeded, hpassed⟩ :=
    closure_of_all_bindings m hm none trivial .all path ⟨⟨trivial, by decide⟩, trivial, trivial⟩
      ⟨trivial, trivial, trivial⟩ seeds hliterals _ hrows 0 ["depth"]
  have hstart : (seeds.table m.toStore).rows =
      [Handle.ofNat 4, .ofNat 5].map fun h => ⟨h, [start h]⟩ := by
    decide +kernel
  rw [hstart] at hcarried hseeded
  refine ⟨hnodup, hfirst, fun e he => ?_, fun s hs y hy => ?_,
    fun e he hdepth y hy => hpassed e he hdepth (.inl rfl) y hy⟩
  · obtain ⟨_, hs, ht, hreached⟩ := hcarried e he
    obtain ⟨h, hh, rfl⟩ := List.mem_map.1 hs
    exact ⟨h, hh, List.mem_singleton.1 ht, hreached⟩
  · exact hseeded ⟨s, [start s]⟩ (List.mem_map_of_mem hs) _ (List.mem_singleton_self _) y hy

end Plan

end GraphQuery
