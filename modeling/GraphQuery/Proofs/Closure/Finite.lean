import GraphQuery.Proofs.Closure.Course
import GraphQuery.Proofs.Safety.Plan
import GraphQuery.Store.Social
import Mathlib.Data.Finset.Card
import Mathlib.Data.Finset.Prod

/-!
# Closures come to an end

Whatever the morphism does, each level but the last reaches a handle that was not seen before, and
no handle is shown twice with one binding set. So if the levels keep to the nodes of a store, there
are not many more levels than nodes, and the nodes and the binding sets of the seeds bound the rows.
-/

namespace GraphQuery

/-- From handles that are accepted, as nodes are, the results of a level are nodes. -/
structure Feed.Yields (ok : Handle → Prop) (nodes : Finset Handle) (expand : Reached → Delivered) :
    Prop where
  accepts : ∀ h ∈ nodes, ok h
  yields : ∀ frontier : Reached, (∀ p ∈ frontier, ok p.1) →
    ∀ r ∈ (expand frontier).rows, r.handle ∈ nodes

def Reached.unseenOf (seen : Reached) (nodes : Finset Handle) : Finset Handle :=
  nodes.filter (· ∉ seen.handles)

section Finite

variable {ok : Handle → Prop} {nodes : Finset Handle} {sets : Finset Tags}
  {expand : Reached → Delivered} {bindings : ClosureBindings} {maxDepth depth : Nat}
  {seen frontier : Reached} {l : Level} {es : List Emission}

theorem Feed.Yields.mem_shown (hy : Feed.Yields ok nodes expand) (hf : ∀ p ∈ frontier, ok p.1)
    {p : Handle × Tags}
    (hp : p ∈ (Level.ofRows bindings seen frontier (expand frontier).rows).shown) :
    p.1 ∈ nodes := by
  obtain ⟨r, hr, hhandle⟩ := (Level.origin_of_mem_shown hp).1
  exact hhandle ▸ hy.yields frontier hf r hr

theorem Feed.Yields.mem_fresh (hy : Feed.Yields ok nodes expand) (hf : ∀ p ∈ frontier, ok p.1)
    {p : Handle × Tags}
    (hp : p ∈ (Level.ofRows bindings seen frontier (expand frontier).rows).fresh) :
    p.1 ∈ nodes :=
  hy.mem_shown hf ((Level.made_ofRows bindings seen frontier _).mem_fresh.1 hp).1

/-! ## How many levels there are -/

theorem Level.Made.unseenOf_lt {candidates : Reached} (hl : Level.Made seen candidates l)
    {p : Handle × Tags} (hp : p ∈ l.fresh) (hnode : p.1 ∈ nodes) :
    (l.seen.unseenOf nodes).card < (seen.unseenOf nodes).card := by
  obtain ⟨hshown, hnew⟩ := hl.mem_fresh.1 hp
  refine Finset.card_lt_card (Finset.ssubset_iff_of_subset ?_ |>.2 ⟨p.1, ?_, ?_⟩)
  · intro h hh
    simp only [Reached.unseenOf, Finset.mem_filter, hl.grown, Reached.handles_append,
      List.mem_append, not_or] at hh ⊢
    exact ⟨hh.1, hh.2.1⟩
  · exact Finset.mem_filter.2 ⟨hnode, hnew⟩
  · intro hh
    refine (Finset.mem_filter.1 hh).2 ?_
    rw [hl.grown, Reached.handles_append]
    exact List.mem_append_right _ (Reached.mem_handles.2 ⟨p.2, hshown⟩)

/-- There is at most one level more than there are nodes left to be seen. -/
theorem length_onward_le (hy : Feed.Yields ok nodes expand) (hf : ∀ p ∈ frontier, ok p.1) :
    (LevelRun.onward bindings maxDepth expand seen frontier depth).levels.length ≤
      (seen.unseenOf nodes).card + 1 := by
  refine (LevelRun.onward_induct (P := fun seen frontier _ ls => (∀ p ∈ frontier, ok p.1) →
    (frontier = [] → ls = []) ∧ ls.length ≤ (seen.unseenOf nodes).card + 1) ?_ ?_
    seen frontier depth hf).2
  · exact fun _ _ _ _ _ => ⟨fun _ => rfl, Nat.zero_le _⟩
  · intro seen frontier depth ls hne _ l ih hf
    have hl : Level.Made seen _ l := Level.made_ofRows bindings seen frontier _
    obtain ⟨hlast, hlength⟩ := ih fun p hp => hy.accepts _ (hy.mem_fresh hf hp)
    refine ⟨fun hnil => (hne hnil).elim, ?_⟩
    rw [List.length_cons]
    cases hfresh : l.fresh with
    | nil => simp [hlast hfresh]
    | cons p rest =>
        have hp : p ∈ l.fresh := hfresh ▸ List.mem_cons_self
        have hlt := hl.unseenOf_lt hp (hy.mem_fresh hf hp)
        omega

/-! ## How many rows there are -/

theorem mem_of_mem_onward (hy : Feed.Yields ok nodes expand)
    (hf : ∀ p ∈ frontier, ok p.1 ∧ p.2 ∈ sets) :
    ∀ e ∈ Emission.ofLevels depth
      (LevelRun.onward bindings maxDepth expand seen frontier depth).levels,
      e.handle ∈ nodes ∧ e.inherited ∈ sets := by
  revert hf
  refine LevelRun.onward_induct (P := fun _ frontier depth ls =>
    (∀ p ∈ frontier, ok p.1 ∧ p.2 ∈ sets) →
      ∀ e ∈ Emission.ofLevels depth ls, e.handle ∈ nodes ∧ e.inherited ∈ sets) ?_ ?_
    seen frontier depth
  · exact fun _ _ _ _ _ => by simp [Emission.ofLevels]
  · intro seen frontier depth ls _ _ l ih hf
    have hok : ∀ p ∈ frontier, ok p.1 := fun p hp => (hf p hp).1
    have hshown : ∀ p ∈ l.shown, p.1 ∈ nodes ∧ p.2 ∈ sets := by
      intro p hp
      obtain ⟨q, hq, heq⟩ := (Level.origin_of_mem_shown hp).2
      exact ⟨hy.mem_shown hok hp, heq ▸ (hf q hq).2⟩
    intro e he
    rcases List.mem_append.1 he with he | he
    · exact hshown e.pair (Emission.mem_ofQueue.1 he).2
    · refine ih (fun p hp => ?_) e he
      have hp := hshown p ((Level.made_ofRows bindings seen frontier _).mem_fresh.1 hp).1
      exact ⟨hy.accepts _ hp.1, hp.2⟩

structure EachOnce (seen : Reached) (es : List Emission) : Prop where
  new : ∀ e ∈ es, e.handle ∉ seen.handles
  nodup : (es.map Emission.handle).Nodup

theorem EachOnce.append_level {candidates : Reached} (hl : Level.Made seen candidates l)
    (hfirsts : Level.Firsts l) (h : EachOnce l.seen es) :
    EachOnce seen (Emission.ofQueue depth l.shown ++ es) := by
  have hnew : ∀ e ∈ es, e.handle ∉ seen.handles ∧ e.handle ∉ l.shown.handles := by
    intro e he
    simpa [hl.grown, Reached.handles_append] using h.new e he
  constructor
  · intro e he
    rcases List.mem_append.1 he with he | he
    · exact hfirsts.not_mem_seen hl (Emission.mem_ofQueue.1 he).2
    · exact (hnew e he).1
  · rw [List.map_append, Emission.map_handle_ofQueue]
    refine List.nodup_append.2 ⟨hfirsts.nodup, h.nodup, fun x hx y hy => ?_⟩
    obtain ⟨e, he, rfl⟩ := List.mem_map.1 hy
    rintro rfl
    exact (hnew e he).2 hx

/-- A run that shows first bindings emits every handle once. -/
theorem eachOnce_onward (maxDepth : Nat) (expand : Reached → Delivered) (seen frontier : Reached)
    (depth : Nat) : EachOnce seen (Emission.ofLevels depth
      (LevelRun.onward .first maxDepth expand seen frontier depth).levels) := by
  refine LevelRun.onward_induct
    (P := fun seen _ depth ls => EachOnce seen (Emission.ofLevels depth ls)) ?_ ?_
    seen frontier depth
  · exact fun _ _ _ _ => ⟨by simp [Emission.ofLevels], .nil⟩
  · exact fun seen frontier depth ls _ _ ih =>
      .append_level (Level.made_ofRows .first seen frontier _)
        (Level.firsts_ofRows seen frontier _) ih

structure LevelRun.Bounded (nodes : Finset Handle) (sets : Finset Tags)
    (bindings : ClosureBindings) (r : LevelRun) : Prop where
  levels_le : r.levels.length ≤ nodes.card + 1
  keeps : ∀ e ∈ Emission.ofLevels 0 r.levels, e.handle ∈ nodes ∧ e.inherited ∈ sets
  pairs : ((Emission.ofLevels 0 r.levels).map Emission.pair).Nodup
  handles : bindings = .first → ((Emission.ofLevels 0 r.levels).map Emission.handle).Nodup

theorem LevelRun.bounded_ofSeeds (hy : Feed.Yields ok nodes expand) {d : Delivered}
    (hd : ∀ r ∈ d.rows, ok r.handle ∧ ∀ t ∈ r.sets, t ∈ sets) :
    (LevelRun.ofSeeds bindings maxDepth expand d).Bounded nodes sets bindings := by
  unfold LevelRun.ofSeeds
  cases d.error with
  | some e => exact ⟨Nat.zero_le _, by simp [Emission.ofLevels], .nil, fun _ => .nil⟩
  | none =>
      have hf : ∀ p ∈ Reached.ofRows d.rows, ok p.1 ∧ p.2 ∈ sets := by
        intro p hp
        obtain ⟨r, hr, heq, ht⟩ := Reached.mem_ofRows.1 hp
        exact ⟨heq ▸ (hd r hr).1, (hd r hr).2 _ ht⟩
      refine ⟨?_, mem_of_mem_onward hy hf, (unrepeated_onward bindings _ _ _ _ _).nodup, ?_⟩
      · refine Nat.le_trans (length_onward_le hy fun p hp => (hf p hp).1) ?_
        exact Nat.add_le_add_right (Finset.card_filter_le _ _) 1
      · rintro rfl
        exact (eachOnce_onward _ _ _ _ _).nodup

namespace LevelRun.Bounded

variable {r : LevelRun}

theorem length_le_of_first (h : r.Bounded nodes sets .first) :
    (Emission.ofLevels 0 r.levels).length ≤ nodes.card := by
  rw [← List.length_map Emission.handle, ← List.toFinset_card_of_nodup (h.handles rfl)]
  refine Finset.card_le_card fun x hx => ?_
  obtain ⟨e, he, rfl⟩ := List.mem_map.1 (List.mem_toFinset.1 hx)
  exact (h.keeps e he).1

theorem length_le (h : r.Bounded nodes sets bindings) :
    (Emission.ofLevels 0 r.levels).length ≤ nodes.card * sets.card := by
  rw [← List.length_map Emission.pair, ← List.toFinset_card_of_nodup h.pairs,
    ← Finset.card_product]
  refine Finset.card_le_card fun p hp => ?_
  obtain ⟨e, he, rfl⟩ := List.mem_map.1 (List.mem_toFinset.1 hp)
  exact Finset.mem_product.2 (h.keeps e he)

end LevelRun.Bounded

end Finite

/-! ## Drains -/

def Scanner.drained (S : Scanner) : Run Row S.State :=
  S.drain (fun _ => none) S.fresh .never

def Run.delivered {σ : Type} (r : Run Row σ) : Delivered :=
  ⟨r.items, r.error⟩

theorem Scanner.record_never {S : Scanner} (ht : S.drained.token = .never) :
    S.record (fun _ => none) .never = ⟨S.drained.delivered.complete, S.drained.state, .never⟩ :=
  congrArg (Outcome.mk _ _) ht

theorem Scanner.Shows.drained {S : Scanner} {F : Feed} (hs : S.Shows F S.fresh) :
    S.drained.delivered = F.delivered ∧ S.drained.token = .never := by
  obtain ⟨s', hd⟩ := hs.drain fun _ => none
  rw [Scanner.drained, hd]
  exact ⟨rfl, rfl⟩

namespace Closure

theorem expands_level {C : Closure} (ht : ∀ inputs, (C.level inputs).drained.token = .never) :
    C.Expands fun frontier => (C.level frontier.inputs).drained.delivered :=
  fun _ => ⟨_, Scanner.record_never (ht _)⟩

/-- A closure comes to an end, whatever its morphism does, as long as the levels that start from
seeds and nodes have nodes as results. It expands at most one level more than there are nodes, and
shows each of its rows with one binding set. If it shows first bindings, it has no two rows for one
node; if all bindings, it has at most one row for each node and binding set of a seed. Unless the
seeds or a level fail, it is exhausted then: a further pull finds nothing and changes nothing. -/
theorem comes_to_an_end (C : Closure) (seeds : Scanner) (hseeds : seeds.drained.token = .never)
    (hlevels : ∀ inputs, (C.level inputs).drained.token = .never)
    (hyields : ∀ inputs : HandleList,
      (∀ h ∈ inputs.toList, h ∈ seeds.drained.items.map Row.handle ∨ h ∈ C.store.nodes) →
      ∀ r ∈ (C.level inputs).drained.items, r.handle ∈ C.store.nodes) :
    let nodes := C.store.nodes.toFinset
    let sets := (seeds.drained.items.flatMap Row.sets).toFinset
    let run := (seeds.closure C).drained
    run.token = .never ∧ run.state.body.depth ≤ nodes.card + 1 ∧
    (∀ r ∈ run.items, r.handle ∈ C.store.nodes ∧ r.sets.length = 1) ∧
    (C.bindings = .first →
      (run.items.map Row.handle).Nodup ∧ run.items.length ≤ nodes.card) ∧
    (C.bindings = .all → run.items.length ≤ nodes.card * sets.card) ∧
    (seeds.drained.error = none →
      (∀ inputs : HandleList,
        (∀ h ∈ inputs.toList, h ∈ seeds.drained.items.map Row.handle ∨ h ∈ C.store.nodes) →
        (C.level inputs).drained.error = none) →
      run.error = none ∧
        (seeds.closure C).next run.state .never = ⟨.nothing, run.state, .never⟩) := by
  intro nodes sets run
  let ok (h : Handle) : Prop := h ∈ seeds.drained.items.map Row.handle ∨ h ∈ C.store.nodes
  let expand (frontier : Reached) := (C.level frontier.inputs).drained.delivered
  have hy : Feed.Yields ok nodes expand :=
    ⟨fun h hh => .inr (List.mem_toFinset.1 hh), fun frontier hf r hr =>
      List.mem_toFinset.2 (hyields _ (Reached.forall_inputs hf) r hr)⟩
  have hseedRows : ∀ r ∈ seeds.drained.delivered.rows, ok r.handle ∧ ∀ t ∈ r.sets, t ∈ sets :=
    fun r hr => ⟨.inl (List.mem_map_of_mem hr), fun t ht =>
      List.mem_toFinset.2 (List.mem_flatMap.2 ⟨r, hr, ht⟩)⟩
  let r := LevelRun.ofSeeds C.bindings C.maxDepth expand seeds.drained.delivered
  have hbounded : r.Bounded nodes sets C.bindings := LevelRun.bounded_ofSeeds hy hseedRows
  obtain ⟨b', hcourse, hdepth, hend⟩ :=
    course_ofSeeds (Scanner.record_never hseeds) (expands_level hlevels)
  have hrun : run = ⟨(Emission.ofLevels 0 r.levels).map
      (Emission.row (tagsAt C.store C.depthNames)), r.error, ⟨⟨r.error, false⟩, b'⟩, .never⟩ :=
    hcourse.drain
  have hitems : run.items.length = (Emission.ofLevels 0 r.levels).length := by
    rw [hrun, List.length_map]
  refine ⟨by rw [hrun], ?_, fun row hrow => ?_, fun hfirst => ?_, fun _ => ?_,
    fun hseed hlevel => ?_⟩
  · rw [hrun]
    exact hdepth.trans_le hbounded.levels_le
  · rw [hrun] at hrow
    obtain ⟨e, he, rfl⟩ := List.mem_map.1 hrow
    exact ⟨List.mem_toFinset.1 (hbounded.keeps e he).1, rfl⟩
  · rw [hfirst] at hbounded
    refine ⟨?_, hitems ▸ hbounded.length_le_of_first⟩
    rw [hrun, List.map_map]
    exact hbounded.handles rfl
  · exact hitems ▸ hbounded.length_le
  · have herror : r.error = none := by
      show (LevelRun.ofSeeds C.bindings C.maxDepth expand ⟨_, seeds.drained.error⟩).error = none
      rw [hseed]
      refine LevelRun.error_onward ok (fun frontier hf => ?_) _ _ fun p hp => ?_
      · exact ⟨hlevel _ (Reached.forall_inputs hf), fun row hrow =>
          hy.accepts _ (hy.yields frontier hf row hrow)⟩
      · obtain ⟨row, hrow, heq, -⟩ := Reached.mem_ofRows.1 hp
        exact heq ▸ (hseedRows row hrow).1
    rw [hrun, herror]
    exact ⟨rfl, (hend herror).next⟩

end Closure

/-! ## Levels of plans -/

namespace Plan

variable {store : QuadStore} {morphism : Plan} {inputs : HandleList}

theorem holds_inputs (hinputs : ∀ h ∈ inputs.toList, h ∈ store.nodes) :
    ((Meaning.leaf inputs.toList inputs.contains).naming [baseName]).Safe (· ∈ store.nodes) :=
  (Meaning.safe_leaf hinputs).naming [baseName]

theorem mem_nodes_of_level (hs : store.Coherent) (hp : morphism.Within store.native)
    (hinputs : ∀ h ∈ inputs.toList, h ∈ store.nodes) (maxDepth : Nat) (names : List String)
    (bindings : ClosureBindings) :
    ∀ r ∈ ((closing store morphism maxDepth names bindings).level inputs).drained.items,
      r.handle ∈ store.nodes := by
  have hlevel := (shows_level store morphism maxDepth names bindings inputs).drained.1
  have hholds := (holds_on hs (holds_inputs hinputs).feed.expectAny morphism hp).delivered.2
  rw [← hlevel] at hholds
  exact fun r hr => (hholds r hr).1

theorem error_level (hs : store.Coherent) (hp : morphism.Within store.harmless)
    (hinputs : ∀ h ∈ inputs.toList, h ∈ store.nodes) (maxDepth : Nat) (names : List String)
    (bindings : ClosureBindings) :
    ((closing store morphism maxDepth names bindings).level inputs).drained.error = none := by
  have hlevel := (shows_level store morphism maxDepth names bindings inputs).drained.1
  exact (congrArg Delivered.error hlevel).trans
    (safe_on hs (holds_inputs hinputs) morphism hp).feed.delivered.1

/-- From Charlie and Dani on, the first three in order of those within two steps of what a level
starts from: for all bindings, there are no more levels than nodes and one, and no more than two
rows for a node. -/
theorem first_three_come_to_an_end :
    let m := MemoryStore.social
    let seeds : Plan := .save (.fixed (.ofList [.ofNat 4, .ofNat 5])) ["start"]
    let step : Plan := .step .input .subject .object none [] none
    let morphism : Plan := .limit (.sort (.recursive .input step 2 [] .first)) 3
    let closure := (seeds.roles m.toStore).scanner.closure (closing m.toStore morphism 0 [] .all)
    let run := closure.drained
    run.error = none ∧ run.state.body.depth ≤ 15 ∧ run.items.length ≤ 28 ∧
      closure.next run.state .never = ⟨.nothing, run.state, .never⟩ := by
  intro m seeds step morphism closure run
  have hs : m.toStore.Coherent := MemoryStore.coherent ⟨by decide +kernel, by decide +kernel⟩
  have hnative : morphism.Within m.toStore.native := ⟨trivial, trivial, trivial, trivial, trivial⟩
  have hharmless : morphism.Within m.toStore.harmless :=
    ⟨trivial, trivial, trivial, trivial, trivial⟩
  -- The seeds show two nodes, each with itself as the start.
  have hdrained := (seeds.realizes m.toStore).shows.drained
  have hdelivered : (seeds.meaning m.toStore).feed.delivered =
      ⟨[Handle.ofNat 4, .ofNat 5].map fun h => ⟨h, [Tags.empty.insertAll ["start"] h]⟩, none⟩ := rfl
  rw [hdelivered] at hdrained
  have hitems : (seeds.roles m.toStore).scanner.drained.items = _ :=
    congrArg Delivered.rows hdrained.1
  have hinputs : ∀ inputs : HandleList, (∀ h ∈ inputs.toList,
      h ∈ (seeds.roles m.toStore).scanner.drained.items.map Row.handle ∨ h ∈ m.toStore.nodes) →
      ∀ h ∈ inputs.toList, h ∈ m.toStore.nodes := by
    intro inputs hin h hh
    refine (hin h hh).elim (fun hseed => ?_) id
    rw [hitems, List.map_map] at hseed
    have hnodes : ∀ h ∈ [Handle.ofNat 4, .ofNat 5], h ∈ m.toStore.nodes := by decide +kernel
    exact hnodes h (by simpa using hseed)
  obtain ⟨-, hdepth, -, -, hlength, hend⟩ := Closure.comes_to_an_end
    (closing m.toStore morphism 0 [] .all) (seeds.roles m.toStore).scanner hdrained.2
    (fun inputs => (shows_level m.toStore morphism 0 [] .all inputs).drained.2)
    (fun inputs hin => mem_nodes_of_level hs hnative (hinputs inputs hin) 0 [] .all)
  have hnodes : (closing m.toStore morphism 0 [] .all).store.nodes.toFinset.card = 14 := by
    decide +kernel
  have hsets : ((seeds.roles m.toStore).scanner.drained.items.flatMap Row.sets).toFinset.card =
      2 := by
    rw [hitems]
    decide +kernel
  obtain ⟨herror, hnext⟩ := hend (congrArg Delivered.error hdrained.1) fun inputs hin =>
    error_level hs hharmless (hinputs inputs hin) 0 [] .all
  have hlength := hlength rfl
  rw [hnodes, hsets] at hlength
  rw [hnodes] at hdepth
  exact ⟨herror, hdepth, hlength, hnext⟩

end Plan

end GraphQuery
