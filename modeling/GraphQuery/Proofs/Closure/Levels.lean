import GraphQuery.Proofs.Closure.Distance
import GraphQuery.Proofs.Safety.Feed

/-!
# Levels by distance

A closure goes through the handles in the order of their distance from the seeds: the level with the
number `k` passes on what is at the distance `k`, and knows in the end what is at that distance or
nearer. If first bindings are shown, what a level passes on is all it shows.
-/

namespace GraphQuery

/-! ## Level after level -/

/-- A level finds, for each of its frontier handles, exactly what a step leads to from it. -/
def Feed.Traces (R : Handle → Handle → Prop) (ok : Handle → Prop)
    (expand : Reached → Delivered) : Prop :=
  ∀ frontier : Reached, (∀ p ∈ frontier, ok p.1) → ∀ y t,
    (y, t) ∈ Level.candidates frontier (expand frontier).rows ↔ ∃ x, (x, t) ∈ frontier ∧ R x y

def AtDepth (R : Handle → Handle → Prop) (seeds : Reached) : Nat → Handle → Prop
  | 0, x => x ∈ seeds.handles
  | k + 1, x => Distance R (· ∈ seeds.handles) x (k + 1)

/-- Where a closure stands before a level, if it goes by distance. -/
structure Nearest (R : Handle → Handle → Prop) (seeds : Reached) (depth : Nat)
    (seen frontier : Reached) : Prop where
  seen_iff : ∀ y, y ∈ seen.handles ↔ ∃ k, k ≤ depth ∧ Distance R (· ∈ seeds.handles) y k
  frontier_iff : ∀ x, x ∈ frontier.handles ↔ AtDepth R seeds depth x
  carried : ∀ p ∈ frontier, ∃ s, (s, p.2) ∈ seeds ∧ ReachedIn R depth s p.1

section Levels

variable {R : Handle → Handle → Prop} {ok : Handle → Prop} {seeds seen frontier : Reached}
  {depth : Nat}

theorem nearest_seeds (R : Handle → Handle → Prop) (seeds : Reached) :
    Nearest R seeds 0 [] seeds where
  seen_iff y := by
    simp only [Reached.handles, List.map_nil, List.not_mem_nil, false_iff]
    rintro ⟨k, hk, hd⟩
    have := hd.pos
    omega
  frontier_iff _ := .rfl
  carried p hp := ⟨p.1, hp, rfl⟩

/-- What is one step from the frontier and not seen before is next in distance. -/
theorem Nearest.distance_iff (h : Nearest R seeds depth seen frontier) (y : Handle) :
    Distance R (· ∈ seeds.handles) y (depth + 1) ↔
      y ∉ seen.handles ∧ ∃ x ∈ frontier.handles, R x y := by
  constructor
  · intro hd
    refine ⟨fun hy => ?_, ?_⟩
    · obtain ⟨k, hk, hd'⟩ := (h.seen_iff y).1 hy
      have := hd.unique hd'
      omega
    · cases depth with
      | zero =>
          obtain ⟨x, hx, z, rfl, hzy⟩ := hd.reached
          exact ⟨x, (h.frontier_iff x).2 hx, hzy⟩
      | succ depth =>
          obtain ⟨z, hz, hzy⟩ := hd.exists_prior (by omega)
          exact ⟨z, (h.frontier_iff z).2 hz, hzy⟩
  · rintro ⟨hy, x, hx, hxy⟩
    obtain ⟨t, hx⟩ := Reached.mem_handles.1 hx
    obtain ⟨s, hs, hsx⟩ := h.carried _ hx
    have hstart : s ∈ seeds.handles := Reached.mem_handles.2 ⟨_, hs⟩
    have hreached : ReachedIn R (depth + 1) s y := ⟨x, hsx, hxy⟩
    have hle : ∃ j, j ≤ depth + 1 ∧ Distance R (· ∈ seeds.handles) y j :=
      Distance.exists_le (Nat.le_add_left 1 depth) hstart hreached
    obtain ⟨j, hj, hd⟩ := hle
    rcases Nat.lt_or_eq_of_le hj with hlt | rfl
    · exact (hy ((h.seen_iff y).2 ⟨j, by omega, hd⟩)).elim
    · exact hd

/-- A closure ends at a level that it may not expand only if there is nothing beyond. -/
theorem Nearest.not_beyond (h : Nearest R seeds depth seen frontier) {maxDepth : Nat}
    (hclosed : frontier ≠ [] → ¬ (maxDepth = 0 ∨ depth < maxDepth)) {y : Handle} {k : Nat}
    (hk : depth < k) (hmax : maxDepth = 0 ∨ k ≤ maxDepth) :
    ¬ Distance R (· ∈ seeds.handles) y k := by
  intro hd
  by_cases hfrontier : frontier = []
  · obtain ⟨z, hz⟩ := hd.exists_at (Nat.le_add_left 1 depth) hk
    obtain ⟨-, x, hx, -⟩ := (h.distance_iff z).1 hz
    simp [hfrontier, Reached.handles] at hx
  · exact hclosed hfrontier (by omega)

variable {expand : Reached → Delivered}

/-- What a level passes on is next in distance; what it shows has binding sets of seeds. -/
theorem Nearest.level (bindings : ClosureBindings) (h : Nearest R seeds depth seen frontier)
    (ht : Feed.Traces R ok expand) (hf : ∀ p ∈ frontier, ok p.1) :
    let l := Level.ofRows bindings seen frontier (expand frontier).rows
    (∀ p ∈ l.shown, ∃ s, (s, p.2) ∈ seeds ∧ ReachedIn R (depth + 1) s p.1) ∧
      Nearest R seeds (depth + 1) l.seen l.fresh := by
  intro l
  have hl : Level.Made seen (Level.candidates frontier (expand frontier).rows) l :=
    Level.made_ofRows bindings seen frontier _
  have hcarried : ∀ p ∈ l.shown, ∃ s, (s, p.2) ∈ seeds ∧ ReachedIn R (depth + 1) s p.1 := by
    intro p hp
    obtain ⟨x, hx, hxy⟩ := (ht frontier hf p.1 p.2).1 (hl.new p hp).1
    obtain ⟨s, hs, hsx⟩ := h.carried _ hx
    exact ⟨s, hs, x, hsx, hxy⟩
  have hfresh : ∀ y, y ∈ l.fresh.handles ↔ Distance R (· ∈ seeds.handles) y (depth + 1) := by
    intro y
    rw [h.distance_iff]
    constructor
    · intro hy
      obtain ⟨t, hy⟩ := Reached.mem_handles.1 hy
      obtain ⟨hy, hnew⟩ := hl.mem_fresh.1 hy
      obtain ⟨x, hx, hxy⟩ := (ht frontier hf y t).1 (hl.new _ hy).1
      exact ⟨hnew, x, Reached.mem_handles.2 ⟨t, hx⟩, hxy⟩
    · rintro ⟨hnew, x, hx, hxy⟩
      obtain ⟨t, hx⟩ := Reached.mem_handles.1 hx
      exact hl.mem_handles_fresh.2
        ⟨hl.complete _ ((ht frontier hf y t).2 ⟨x, hx, hxy⟩), hnew⟩
  refine ⟨hcarried, ⟨fun y => ?_, hfresh, fun p hp => hcarried p (hl.mem_fresh.1 hp).1⟩⟩
  -- What is known now was known before or is passed on.
  have hknown : y ∈ l.seen.handles ↔ y ∈ seen.handles ∨ y ∈ l.fresh.handles := by
    rw [hl.mem_handles_fresh, hl.grown, Reached.handles_append, List.mem_append]
    by_cases hy : y ∈ seen.handles <;> simp [hy]
  rw [hknown, h.seen_iff, hfresh]
  constructor
  · rintro (⟨k, hk, hd⟩ | hd)
    · exact ⟨k, by omega, hd⟩
    · exact ⟨_, Nat.le_refl _, hd⟩
  · rintro ⟨k, hk, hd⟩
    rcases Nat.lt_or_eq_of_le hk with hlt | rfl
    · exact .inl ⟨k, by omega, hd⟩
    · exact .inr hd

end Levels

/-! ## All levels -/

namespace Feed

variable {ok : Handle → Prop} {maxDepth : Nat} {tagsAt : Nat → Tags → Tags}
  {expand : Reached → Delivered} {bindings : ClosureBindings} {seen frontier : Reached}
  {depth : Nat}

def queuedRows (tagsAt : Tags → Tags) (queue : Reached) : List Row :=
  queue.map fun p => ⟨p.1, [tagsAt p.2]⟩

theorem handles_queuedRows (tagsAt : Tags → Tags) (queue : Reached) :
    (queuedRows tagsAt queue).map Row.handle = queue.handles := by
  simp [queuedRows, Reached.handles, Function.comp_def]

theorem delivered_queued (tagsAt : Tags → Tags) (queue : Reached) (next : Feed) :
    (queued tagsAt queue next).delivered =
      ⟨queuedRows tagsAt queue ++ next.delivered.rows, next.delivered.error⟩ := by
  induction queue with
  | nil => rfl
  | cons p queue ih =>
      show (⟨⟨p.1, [tagsAt p.2]⟩ :: (queued tagsAt queue next).delivered.rows,
        (queued tagsAt queue next).delivered.error⟩ : Delivered) = _
      rw [ih]
      rfl

theorem rows_levels (hopen : frontier ≠ [] ∧ (maxDepth = 0 ∨ depth < maxDepth))
    (hnone : (expand frontier).error = none)
    (hshown : (Level.ofRows bindings seen frontier (expand frontier).rows).shown ≠ []) :
    let l := Level.ofRows bindings seen frontier (expand frontier).rows
    (levels bindings maxDepth tagsAt expand seen frontier depth).delivered.rows =
      queuedRows (tagsAt (depth + 1)) l.shown ++
        (levels bindings maxDepth tagsAt expand l.seen l.fresh (depth + 1)).delivered.rows := by
  intro l
  rw [levels, dif_pos hopen, hnone]
  simp only
  rw [if_neg hshown, delivered_queued]

/-- A bound on the depth cuts off the rows of the levels after it. -/
theorem levels_prefix (he : SafeExpansion ok expand) (seen frontier : Reached) (depth : Nat)
    (hf : ∀ p ∈ frontier, ok p.1) :
    (levels bindings maxDepth tagsAt expand seen frontier depth).delivered.rows <+:
      (levels bindings 0 tagsAt expand seen frontier depth).delivered.rows := by
  induction seen, frontier, depth using levels.induct bindings maxDepth expand with
  | case1 seen frontier depth hopen e herr =>
      rw [(he frontier hf).1] at herr
      simp at herr
  | case2 seen frontier depth hopen hnone l hshown =>
      rw [levels, dif_pos hopen, hnone]
      simp only
      rw [if_pos hshown]
      exact List.nil_prefix
  | case3 seen frontier depth hopen hnone l hshown ih =>
      rw [rows_levels hopen hnone hshown, rows_levels ⟨hopen.1, .inl rfl⟩ hnone hshown]
      exact (List.prefix_append_right_inj _).2
        (ih (Level.forall_ofRows (he frontier hf).2 bindings seen frontier).2)
  | case4 seen frontier depth hclosed =>
      rw [levels, dif_neg hclosed]
      exact List.nil_prefix

end Feed

/-- Rows that list by their distance the handles beyond a depth, each once and with what a nearest
seed has bound. -/
structure ByDistance (R : Handle → Handle → Prop) (seeds : Reached) (maxDepth : Nat)
    (tagsAt : Nat → Tags → Tags) (depth : Nat) (rows : List Row) : Prop where
  nodup : (rows.map Row.handle).Nodup
  mem_iff : ∀ y, y ∈ rows.map Row.handle ↔
    ∃ k, depth < k ∧ (maxDepth = 0 ∨ k ≤ maxDepth) ∧ Distance R (· ∈ seeds.handles) y k
  ordered : rows.Pairwise fun r q => ∀ j k, Distance R (· ∈ seeds.handles) r.handle j →
    Distance R (· ∈ seeds.handles) q.handle k → j ≤ k
  carried : ∀ r ∈ rows, ∀ k, Distance R (· ∈ seeds.handles) r.handle k →
    ∃ s t, (s, t) ∈ seeds ∧ ReachedIn R k s r.handle ∧ r.sets = [tagsAt k t]

section Run

variable {R : Handle → Handle → Prop} {ok : Handle → Prop} {seeds seen frontier : Reached}
  {maxDepth depth : Nat} {tagsAt : Nat → Tags → Tags} {expand : Reached → Delivered}

theorem byDistance_nil
    (hnone : ∀ y k, depth < k → (maxDepth = 0 ∨ k ≤ maxDepth) →
      ¬ Distance R (· ∈ seeds.handles) y k) :
    ByDistance R seeds maxDepth tagsAt depth [] where
  nodup := by simp
  mem_iff y := by
    simp only [List.map_nil, List.not_mem_nil, false_iff]
    rintro ⟨k, hk, hmax, hd⟩
    exact hnone y k hk hmax hd
  ordered := .nil
  carried := by simp

theorem ByDistance.append_level {rows : List Row} {shown : Reached}
    (hrows : ByDistance R seeds maxDepth tagsAt (depth + 1) rows)
    (hopen : maxDepth = 0 ∨ depth < maxDepth) (hnodup : shown.handles.Nodup)
    (hshown : ∀ y, y ∈ shown.handles ↔ Distance R (· ∈ seeds.handles) y (depth + 1))
    (hcarried : ∀ p ∈ shown, ∃ s, (s, p.2) ∈ seeds ∧ ReachedIn R (depth + 1) s p.1) :
    ByDistance R seeds maxDepth tagsAt depth
      (Feed.queuedRows (tagsAt (depth + 1)) shown ++ rows) := by
  have hlevel : ∀ r ∈ Feed.queuedRows (tagsAt (depth + 1)) shown,
      Distance R (· ∈ seeds.handles) r.handle (depth + 1) := by
    intro r hr
    rw [← hshown, ← Feed.handles_queuedRows (tagsAt (depth + 1)) shown]
    exact List.mem_map_of_mem hr
  have hrest : ∀ r ∈ rows, ∃ k, depth + 1 < k ∧ Distance R (· ∈ seeds.handles) r.handle k := by
    intro r hr
    obtain ⟨k, hk, -, hd⟩ := (hrows.mem_iff r.handle).1 (List.mem_map_of_mem hr)
    exact ⟨k, hk, hd⟩
  refine ⟨?_, fun y => ?_, ?_, fun r hr k hd => ?_⟩
  · rw [List.map_append, Feed.handles_queuedRows]
    refine List.nodup_append.2 ⟨hnodup, hrows.nodup, fun a ha b hb => ?_⟩
    rintro rfl
    obtain ⟨k, hk, -, hd⟩ := (hrows.mem_iff a).1 hb
    have := hd.unique ((hshown a).1 ha)
    omega
  · rw [List.map_append, Feed.handles_queuedRows, List.mem_append, hshown, hrows.mem_iff]
    constructor
    · rintro (hd | ⟨k, hk, hmax, hd⟩)
      · exact ⟨depth + 1, Nat.lt_succ_self _, hopen.imp_right id, hd⟩
      · exact ⟨k, by omega, hmax, hd⟩
    · rintro ⟨k, hk, hmax, hd⟩
      rcases Nat.lt_or_eq_of_le (Nat.succ_le_of_lt hk) with hlt | rfl
      · exact .inr ⟨k, hlt, hmax, hd⟩
      · exact .inl hd
  · refine List.pairwise_append.2 ⟨?_, hrows.ordered, fun r hr q hq j k hj hk => ?_⟩
    · refine List.pairwise_of_forall_mem_list fun r hr q hq j k hj hk => ?_
      exact Nat.le_of_eq ((hj.unique (hlevel r hr)).trans (hk.unique (hlevel q hq)).symm)
    · obtain ⟨i, hi, hd⟩ := hrest q hq
      have := hj.unique (hlevel r hr)
      have := hk.unique hd
      omega
  · rcases List.mem_append.1 hr with hr | hr
    · obtain rfl := hd.unique (hlevel r hr)
      obtain ⟨p, hp, rfl⟩ := List.mem_map.1 hr
      obtain ⟨s, hs, hsp⟩ := hcarried p hp
      exact ⟨s, p.2, hs, hsp, rfl⟩
    · exact hrows.carried r hr k hd

/-- By induction on the levels: as long as each level finds what is one step further, the closure
lists what is beyond the present depth by its distance. -/
theorem Nearest.byDistance (he : Feed.SafeExpansion ok expand) (ht : Feed.Traces R ok expand)
    (h : Nearest R seeds depth seen frontier) (hf : ∀ p ∈ frontier, ok p.1) :
    ByDistance R seeds maxDepth tagsAt depth
      (Feed.levels .first maxDepth tagsAt expand seen frontier depth).delivered.rows := by
  induction seen, frontier, depth using Feed.levels.induct .first maxDepth expand with
  | case1 seen frontier depth hopen e herr =>
      rw [(he frontier hf).1] at herr
      simp at herr
  | case2 seen frontier depth hopen hnone l hshown =>
      rw [Feed.levels, dif_pos hopen, hnone]
      simp only
      rw [if_pos hshown]
      refine byDistance_nil fun y k hk _ hd => ?_
      obtain ⟨z, hz⟩ := hd.exists_at (Nat.le_add_left 1 depth) hk
      have hz := ((h.level .first ht hf).2.frontier_iff z).2 hz
      have hshown : (Level.ofRows .first seen frontier (expand frontier).rows).shown = [] := hshown
      rw [(Level.firsts_ofRows seen frontier (expand frontier).rows).fresh_eq, hshown] at hz
      simp [Reached.handles] at hz
  | case3 seen frontier depth hopen hnone l hshown ih =>
      obtain ⟨hcarried, hnext⟩ := h.level .first ht hf
      have hfirsts := Level.firsts_ofRows seen frontier (expand frontier).rows
      rw [Feed.rows_levels hopen hnone hshown]
      refine (ih hnext (Level.forall_ofRows (he frontier hf).2 .first seen frontier).2).append_level
        hopen.2 hfirsts.nodup (fun y => ?_) hcarried
      rw [← hfirsts.fresh_eq]
      exact hnext.frontier_iff y
  | case4 seen frontier depth hclosed =>
      rw [Feed.levels, dif_neg hclosed]
      exact byDistance_nil fun y k hk hmax =>
        h.not_beyond (fun hne hopen => hclosed ⟨hne, hopen⟩) hk hmax

end Run

end GraphQuery
