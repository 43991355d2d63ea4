import GraphQuery.Proofs.Closure.Nearest
import GraphQuery.Proofs.Reversal.Rows
import Mathlib.Logic.Relation

/-!
# Closures without a bound on their depth

Whichever bindings it shows, a closure without a bound shows what lies any number of steps, but at
least one, beyond its seeds. Of a level only this is asked: that it finds the handles one step from
its frontier, and tells by the name of the base that each of them comes from the frontier.
-/

namespace GraphQuery

open Relation (TransGen)

structure Delivered.IsStep (R : Handle → Handle → Prop) (frontier : Reached) (d : Delivered) :
    Prop where
  error : d.error = none
  handles : ∀ y, y ∈ d.rows.map Row.handle ↔ ∃ x ∈ frontier.handles, R x y
  based : ∀ r ∈ d.rows, ∀ t ∈ r.sets, ∃ x ∈ frontier.handles, t.get? baseName = some x

/-- Every accepted frontier expands to accepted rows one step beyond it. -/
def Feed.Steps (R : Handle → Handle → Prop) (ok : Handle → Prop) (expand : Reached → Delivered) :
    Prop :=
  ∀ frontier : Reached, (∀ p ∈ frontier, ok p.1) →
    (expand frontier).IsStep R frontier ∧ SafeRows ok (expand frontier).rows

section Levels

variable {R : Handle → Handle → Prop} {ok : Handle → Prop} {seen frontier : Reached}
  {bindings : ClosureBindings} {d : Delivered}

theorem Delivered.IsStep.mem_candidates (hd : d.IsStep R frontier)
    (hne : ∀ r ∈ d.rows, r.sets ≠ []) (y : Handle) :
    y ∈ Reached.handles (Level.candidates frontier d.rows) ↔ ∃ x ∈ frontier.handles, R x y := by
  rw [← hd.handles y, Reached.mem_handles]
  constructor
  · rintro ⟨t, ht⟩
    obtain ⟨r, hr, hy, -⟩ := Level.mem_candidates_iff.1 ht
    exact List.mem_map.2 ⟨r, hr, hy⟩
  · intro hy
    obtain ⟨r, hr, rfl⟩ := List.mem_map.1 hy
    obtain ⟨t, ht⟩ := List.exists_mem_of_ne_nil _ (hne r hr)
    obtain ⟨x, hx, hbase⟩ := hd.based r hr t ht
    obtain ⟨u, hu⟩ := Reached.mem_handles.1 hx
    exact ⟨u, Level.mem_candidates_iff.2 ⟨r, hr, rfl, t, ht, x, hbase, hu⟩⟩

theorem Delivered.IsStep.shown (hd : d.IsStep R frontier) (hne : ∀ r ∈ d.rows, r.sets ≠ []) :
    ∀ y ∈ (Level.ofRows bindings seen frontier d.rows).shown.handles,
      ∃ x ∈ frontier.handles, R x y := by
  intro y hy
  obtain ⟨t, ht⟩ := Reached.mem_handles.1 hy
  have hcandidate := ((Level.made_ofRows bindings seen frontier d.rows).new _ ht).1
  exact (hd.mem_candidates hne y).1 (Reached.mem_handles.2 ⟨t, hcandidate⟩)

theorem Delivered.IsStep.complete (hd : d.IsStep R frontier) (hne : ∀ r ∈ d.rows, r.sets ≠ [])
    {x y : Handle} (hx : x ∈ frontier.handles) (hxy : R x y) :
    y ∈ (Level.ofRows bindings seen frontier d.rows).seen.handles := by
  obtain ⟨t, ht⟩ := Reached.mem_handles.1 ((hd.mem_candidates hne y).2 ⟨x, hx, hxy⟩)
  exact (Level.made_ofRows bindings seen frontier d.rows).complete _ ht

/-- What was seen is in the frontier, or what is one step from it has been seen. -/
def Searched (R : Handle → Handle → Prop) (seen frontier : Reached) : Prop :=
  ∀ z ∈ seen.handles, z ∈ frontier.handles ∨ ∀ y, R z y → y ∈ seen.handles

/-- Whatever is beyond what was seen has been seen, or is beyond the frontier. -/
theorem Searched.beyond (hs : Searched R seen frontier) {z y : Handle} (hz : z ∈ seen.handles)
    (hzy : TransGen R z y) : y ∈ seen.handles ∨ ∃ x ∈ frontier.handles, TransGen R x y := by
  induction hzy using TransGen.head_induction_on with
  | single hzy =>
      rcases hs _ hz with hz | hz
      · exact .inr ⟨_, hz, .single hzy⟩
      · exact .inl (hz _ hzy)
  | head hzx hxy ih =>
      rcases hs _ hz with hz | hz
      · exact .inr ⟨_, hz, .head hzx hxy⟩
      · exact ih (hz _ hzx)

theorem Searched.level (hs : Searched R seen frontier) (hd : d.IsStep R frontier)
    (hne : ∀ r ∈ d.rows, r.sets ≠ []) :
    let l := Level.ofRows bindings seen frontier d.rows
    Searched R l.seen l.fresh := by
  intro l z hz
  have hl : Level.Made seen _ l := Level.made_ofRows bindings seen frontier d.rows
  by_cases hold : z ∈ seen.handles
  · right
    intro y hzy
    rcases hs z hold with hz | hz
    · exact hd.complete hne hz hzy
    · rw [hl.grown, Reached.handles_append]
      exact List.mem_append_left _ (hz y hzy)
  · exact .inl (hl.mem_handles_fresh.2 ⟨hz, hold⟩)

/-- Beyond the frontier is what the level has made known and what is beyond what it passes on. -/
theorem Searched.beyond_iff (hs : Searched R seen frontier) (hd : d.IsStep R frontier)
    (hne : ∀ r ∈ d.rows, r.sets ≠ []) (y : Handle) :
    let l := Level.ofRows bindings seen frontier d.rows
    (y ∈ seen.handles ∨ ∃ x ∈ frontier.handles, TransGen R x y) ↔
      y ∈ l.seen.handles ∨ ∃ x ∈ l.fresh.handles, TransGen R x y := by
  intro l
  have hl : Level.Made seen _ l := Level.made_ofRows bindings seen frontier d.rows
  have hnext : Searched R l.seen l.fresh := hs.level hd hne
  have hknown : y ∈ l.seen.handles ↔ y ∈ seen.handles ∨ y ∈ l.shown.handles := by
    rw [hl.grown, Reached.handles_append, List.mem_append]
  constructor
  · rintro (hy | ⟨x, hx, hxy⟩)
    · exact .inl (hknown.2 (.inl hy))
    · obtain ⟨z, hxz, hzy⟩ := TransGen.head'_iff.1 hxy
      have hz : z ∈ l.seen.handles := hd.complete hne hx hxz
      rcases Relation.reflTransGen_iff_eq_or_transGen.1 hzy with rfl | hzy
      · exact .inl hz
      · exact hnext.beyond hz hzy
  · rintro (hy | ⟨x, hx, hxy⟩)
    · refine (hknown.1 hy).imp_right fun hy => ?_
      obtain ⟨x, hx, hxy⟩ := hd.shown hne y hy
      exact ⟨x, hx, .single hxy⟩
    · obtain ⟨t, ht⟩ := Reached.mem_handles.1 hx
      obtain ⟨z, hz, hzx⟩ := hd.shown hne x (Reached.mem_handles.2 ⟨t, (hl.mem_fresh.1 ht).1⟩)
      exact .inr ⟨z, hz, .head hzx hxy⟩

structure IsBeyond (R : Handle → Handle → Prop) (tagsAt : Nat → Tags → Tags)
    (seen frontier : Reached) (rows : List Row) : Prop where
  handles : ∀ y, (y ∈ seen.handles ∨ y ∈ rows.map Row.handle) ↔
    y ∈ seen.handles ∨ ∃ x ∈ frontier.handles, TransGen R x y
  inherited : ∀ r ∈ rows, ∃ k, ∃ p ∈ frontier, r.sets = [tagsAt k p.2]

variable {tagsAt : Nat → Tags → Tags} {expand : Reached → Delivered}

/-- Without a bound on their depth, the levels show everything beyond the frontier. -/
theorem exists_rows_beyond (bindings : ClosureBindings) (tagsAt : Nat → Tags → Tags)
    (he : Feed.Steps R ok expand) (seen frontier : Reached) (depth : Nat)
    (hf : ∀ p ∈ frontier, ok p.1) (hs : Searched R seen frontier) :
    ∃ rows, Feed.levels bindings 0 tagsAt expand seen frontier depth = .ofRows rows ∧
      IsBeyond R tagsAt seen frontier rows := by
  induction seen, frontier, depth using Feed.levels.induct bindings 0 expand with
  | case1 seen frontier depth hopen e herr =>
      rw [(he frontier hf).1.error] at herr
      simp at herr
  | case2 seen frontier depth hopen hnone l hshown =>
      obtain ⟨hd, hrows⟩ := he frontier hf
      have hne : ∀ r ∈ (expand frontier).rows, r.sets ≠ [] := fun r hr => (hrows r hr).2
      have hl : Level.Made seen _ l := Level.made_ofRows bindings seen frontier _
      refine ⟨[], ?_, fun y => ?_, by simp⟩
      · rw [Feed.levels, dif_pos hopen, hnone]
        simp only
        rw [if_pos hshown]
        rfl
      · have hbeyond : _ ↔ y ∈ l.seen.handles ∨ ∃ x ∈ l.fresh.handles, TransGen R x y :=
          hs.beyond_iff hd hne y
        rw [hbeyond, hl.fresh_eq_nil hshown, hl.grown, hshown, List.append_nil]
        simp [Reached.handles]
  | case3 seen frontier depth hopen hnone l hshown ih =>
      obtain ⟨hd, hrows⟩ := he frontier hf
      have hne : ∀ r ∈ (expand frontier).rows, r.sets ≠ [] := fun r hr => (hrows r hr).2
      have hl : Level.Made seen _ l := Level.made_ofRows bindings seen frontier _
      obtain ⟨rows, hlevels, hbeyond⟩ :=
        ih (Level.forall_ofRows hrows bindings seen frontier).2 (hs.level hd hne)
      refine ⟨Feed.queuedRows (tagsAt (depth + 1)) l.shown ++ rows, ?_, fun y => ?_, ?_⟩
      · rw [Feed.levels, dif_pos hopen, hnone]
        simp only
        rw [if_neg hshown, hlevels, Table.queued_ofRows]
        rfl
      · have hnext : _ ↔ y ∈ l.seen.handles ∨ ∃ x ∈ l.fresh.handles, TransGen R x y :=
          hs.beyond_iff hd hne y
        rw [hnext, ← hbeyond.handles y, List.map_append, List.mem_append,
          Feed.handles_queuedRows, hl.grown, Reached.handles_append, List.mem_append, or_assoc]
      · -- Whatever a level shows or passes on has a binding set of the frontier.
        have hshown : ∀ p ∈ l.shown, ∃ q ∈ frontier, q.2 = p.2 := fun p hp =>
          (Level.origin_of_mem_shown hp).2
        intro r hr
        rcases List.mem_append.1 hr with hr | hr
        · obtain ⟨p, hp, rfl⟩ := List.mem_map.1 hr
          obtain ⟨q, hq, heq⟩ := hshown p hp
          exact ⟨depth + 1, q, hq, by rw [heq]⟩
        · obtain ⟨k, p, hp, hsets⟩ := hbeyond.inherited r hr
          obtain ⟨q, hq, heq⟩ := hshown p (hl.mem_fresh.1 hp).1
          exact ⟨k, q, hq, by rw [hsets, heq]⟩
  | case4 seen frontier depth hclosed =>
      have hempty : frontier = [] := by
        by_contra hne
        exact hclosed ⟨hne, .inl rfl⟩
      subst hempty
      refine ⟨[], ?_, by simp [Reached.handles], by simp⟩
      rw [Feed.levels, dif_neg hclosed]
      rfl

end Levels

namespace Closure

theorem tagsAt_eq_override (store : QuadStore) {ok : String → Prop} {names : List String}
    (hn : ∀ n ∈ names, ok n) (depth : Nat) (t : Tags) :
    ∃ u : Tags, u.Binds ok ∧ Closure.tagsAt store names depth t = t.override u := by
  rw [Plan.tagsAt_eq]
  split
  · exact ⟨_, Tags.binds_empty.insertAll hn _, (Tags.override_ofNames ..).symm⟩
  · exact ⟨.empty, Tags.binds_empty, rfl⟩

end Closure

namespace Plan

variable {ok : String → Prop} {m : MemoryStore} {p : Plan} {T : Table}

/-- A closure without a bound leads to what is any number of steps beyond its seeds. -/
theorem Scans.recursive (hm : m.Addressable) (hp : p.Scans m T) {morphism : Plan}
    (hmorphism : morphism.Within m.toStore.harmless) {R : Handle → Handle → Prop}
    (he : Feed.Steps R (· ∈ m.toStore.nodes) fun frontier =>
      (morphism.meaningOn m.toStore (.level frontier)).feed.delivered)
    {names : List String} (hn : ∀ n ∈ names, ok n) (bindings : ClosureBindings) :
    ∃ U, (Plan.recursive p morphism 0 names bindings).Scans m U ∧
      Table.Relays ok (TransGen R) T U := by
  have hne := hp.sets_ne_nil hm
  have hfeed : ((Plan.recursive p morphism 0 names bindings).meaning m.toStore).feed =
      (p.meaning m.toStore).feed.closure bindings 0 (Closure.tagsAt m.toStore names)
        fun frontier => (morphism.meaningOn m.toStore (.level frontier)).feed.delivered := rfl
  rw [hp.feed, Feed.closure, Feed.delivered_ofRows] at hfeed
  obtain ⟨rows, hlevels, hbeyond⟩ := exists_rows_beyond bindings
    (Closure.tagsAt m.toStore names) he [] (.ofRows T.rows) 0
    (Reached.forall_ofRows (hp.safeRows hm)) (by simp [Searched, Reached.handles])
  have hset : ∀ r ∈ rows, ∃ q ∈ T.entries, ∃ u : Tags,
      u.Binds ok ∧ r.sets = [q.tags.override u] := by
    intro r hr
    obtain ⟨k, ⟨x, t⟩, hx, hsets⟩ := hbeyond.inherited r hr
    obtain ⟨q, hq, hid, ht⟩ := Reached.mem_ofRows.1 hx
    obtain ⟨u, hu, htags⟩ := Closure.tagsAt_eq_override m.toStore hn k t
    exact ⟨⟨x, t⟩, Table.mem_entries.2 ⟨q, hq, hid, ht⟩, u, hu, by rw [hsets, htags]⟩
  refine ⟨.recorded rows, ⟨⟨hp.within, hmorphism⟩, hfeed.trans hlevels⟩, fun y => ?_,
    fun q hq => ?_⟩
  · have hhandles : y ∈ rows.map Row.handle ↔ ∃ x ∈ T.rows.map Row.handle, TransGen R x y := by
      have hall := hbeyond.handles y
      simp only [Reached.mem_handles_ofRows hne] at hall
      simpa only [Reached.handles, List.map_nil, List.not_mem_nil, false_or] using hall
    have hentries : ∀ {V : Table}, (∀ r ∈ V.rows, r.sets ≠ []) → ∀ x,
        x ∈ V.rows.map Row.handle ↔ ∃ t, ⟨x, t⟩ ∈ V.entries := fun hV x =>
      Path.mem_handles_entries hV
    have hrows : ∀ r ∈ (Table.recorded rows).rows, r.sets ≠ [] := by
      intro r hr
      obtain ⟨q, -, u, -, hsets⟩ := hset r hr
      simp [hsets]
    rw [← hentries hrows y, show (Table.recorded rows).rows = rows from rfl, hhandles]
    constructor
    · rintro ⟨x, hx, hxy⟩
      obtain ⟨t, ht⟩ := (hentries hne x).1 hx
      exact ⟨_, ht, hxy⟩
    · rintro ⟨r, hr, hxy⟩
      exact ⟨r.id, (hentries hne r.id).2 ⟨r.tags, hr⟩, hxy⟩
  · obtain ⟨r, hr, -, ht⟩ := Table.mem_entries.1 hq
    obtain ⟨p, hp, u, hu, hsets⟩ := hset r hr
    rw [hsets, List.mem_singleton] at ht
    exact ⟨p, hp, u, hu, ht⟩

end Plan

end GraphQuery
