import GraphQuery.Proofs.Closure.Level
import GraphQuery.Proofs.Meaning

/-!
# The course of a closure

A drain of a closure goes through levels. Each of them expands the frontier that the one before has
passed on, and shows its queue before the next one is expanded. So what the drain stops at is what
the levels show, one after the other.
-/

namespace GraphQuery

/-! ## The stops of a drain -/

/-- The states in which a drain stops at its results, in sequence. -/
def Scanner.stops (S : Scanner) (s : S.State) (t : Token) : List S.State :=
  let o := S.next s t
  match _h : o.answer with
  | .found _ =>
      let a := S.alternates o.state o.token
      match a.error with
      | some _ => [o.state]
      | none => o.state :: S.stops a.state a.token
  | _ => []
termination_by S.order.wf.wrap s
decreasing_by exact S.order.lt_of_le_of_lt (S.alternates_le _ _) (Scanner.next_lt _h)

section

variable {S : Scanner} {s s' s'' : S.State} {h : Handle} {sets : List Tags} {e : QueryError}

theorem Scanner.stops_congr (hn : S.next s .never = S.next s' .never) :
    S.stops s .never = S.stops s' .never := by
  rw [Scanner.stops, Scanner.stops]
  revert hn
  generalize S.next s .never = o, S.next s' .never = o'
  rintro rfl
  rfl

theorem Scanner.stops_nothing (hn : S.next s .never = ⟨.nothing, s', .never⟩) :
    S.stops s .never = [] := by
  rw [Scanner.stops]
  dsimp only
  split <;> simp_all

theorem Scanner.stops_failed (hn : S.next s .never = ⟨.failed e, s', .never⟩) :
    S.stops s .never = [] := by
  rw [Scanner.stops]
  dsimp only
  split <;> simp_all

theorem Scanner.stops_found (hn : S.next s .never = ⟨.found h, s', .never⟩)
    (ha : S.alternates s' .never = ⟨sets, none, s'', .never⟩) :
    S.stops s .never = s' :: S.stops s'' .never := by
  rw [Scanner.stops]
  dsimp only
  split <;> simp_all

end

/-! ## Emissions -/

/-- A handle that a closure stops at, with the depth of its level and the binding set that it has
inherited. -/
structure Emission where
  depth : Nat
  handle : Handle
  inherited : Tags
deriving DecidableEq

namespace Emission

def row (tagsAt : Nat → Tags → Tags) (e : Emission) : Row :=
  ⟨e.handle, [tagsAt e.depth e.inherited]⟩

def pair (e : Emission) : Handle × Tags :=
  (e.handle, e.inherited)

def ofQueue (depth : Nat) (queue : Reached) : List Emission :=
  queue.map fun p => ⟨depth, p.1, p.2⟩

theorem mem_ofQueue {depth : Nat} {queue : Reached} {e : Emission} :
    e ∈ ofQueue depth queue ↔ e.depth = depth ∧ e.pair ∈ queue := by
  obtain ⟨k, x, t⟩ := e
  simp only [ofQueue, List.mem_map, Emission.mk.injEq, pair]
  constructor
  · rintro ⟨p, hp, rfl, rfl, rfl⟩
    exact ⟨rfl, hp⟩
  · rintro ⟨rfl, hp⟩
    exact ⟨(x, t), hp, rfl, rfl, rfl⟩

theorem map_pair_ofQueue (depth : Nat) (queue : Reached) :
    (ofQueue depth queue).map pair = queue := by
  simp [ofQueue, Function.comp_def, pair]

theorem map_handle_ofQueue (depth : Nat) (queue : Reached) :
    (ofQueue depth queue).map handle = queue.handles := by
  simp [ofQueue, Function.comp_def, Reached.handles]

def ofLevels (depth : Nat) : List Level → List Emission
  | [] => []
  | l :: ls => ofQueue (depth + 1) l.shown ++ ofLevels (depth + 1) ls

theorem depth_lt_of_mem_ofLevels {ls : List Level} {e : Emission} :
    ∀ {depth : Nat}, e ∈ ofLevels depth ls → depth < e.depth := by
  induction ls with
  | nil => simp [ofLevels]
  | cons l ls ih =>
      intro depth he
      rcases List.mem_append.1 he with he | he
      · rw [(mem_ofQueue.1 he).1]
        exact Nat.lt_succ_self depth
      · exact Nat.lt_of_succ_lt (ih he)

/-- Levels come in the order of their depths. -/
theorem ordered_ofLevels (ls : List Level) :
    ∀ depth, (ofLevels depth ls).Pairwise fun e f => e.depth ≤ f.depth := by
  induction ls with
  | nil => exact fun _ => .nil
  | cons l ls ih =>
      refine fun depth => List.pairwise_append.2 ⟨?_, ih (depth + 1), fun e he f hf => ?_⟩
      · refine List.pairwise_of_forall_mem_list fun e he f hf => ?_
        exact Nat.le_of_eq ((mem_ofQueue.1 he).1.trans (mem_ofQueue.1 hf).1.symm)
      · rw [(mem_ofQueue.1 he).1]
        exact Nat.le_of_lt (depth_lt_of_mem_ofLevels hf)

end Emission

def ClosureState.emission? (b : ClosureState) : Option Emission :=
  b.current.map fun p => ⟨b.depth, p.1, p.2⟩

namespace Closure

variable {C : Closure} {seeds : Scanner} {b b' b₁ : ClosureState} {es : List Emission}
  {error : Option QueryError}

/-- A drain from a state on stops at these emissions, reports their rows and ends in that state,
with this error if with any. -/
structure Course (C : Closure) (seeds : Scanner) (b : ClosureState) (es : List Emission)
    (error : Option QueryError) (b' : ClosureState) : Prop where
  drain : (seeds.closure C).drain (fun _ => none) ⟨{}, b⟩ .never =
    ⟨es.map (Emission.row (tagsAt C.store C.depthNames)), error, ⟨⟨error, false⟩, b'⟩, .never⟩
  stops : ((seeds.closure C).stops ⟨{}, b⟩ .never).map (fun s => ClosureState.emission? s.body) =
    es.map some

theorem Course.filterMap_stops (h : Course C seeds b es error b') :
    ((seeds.closure C).stops ⟨{}, b⟩ .never).filterMap (fun s => ClosureState.emission? s.body) =
      es := by
  calc _ = (((seeds.closure C).stops ⟨{}, b⟩ .never).map
        fun s => ClosureState.emission? s.body).filterMap id := by
        rw [List.filterMap_map]
        rfl
    _ = (es.map some).filterMap id := by rw [h.stops]
    _ = es := by
        rw [List.filterMap_map]
        exact List.filterMap_some

theorem Course.ended (hpull : C.pull seeds { b with current := none } .never =
    ⟨.nothing, b', .never⟩) : Course C seeds b [] none b' := by
  have hn : (seeds.closure C).next ⟨{}, b⟩ .never = ⟨.nothing, ⟨{}, b'⟩, .never⟩ :=
    Scanner.next_never rfl hpull
  exact ⟨Scanner.drain_nothing hn, by rw [Scanner.stops_nothing hn]; rfl⟩

theorem Course.broken {e : QueryError} (hpull : C.pull seeds { b with current := none } .never =
    ⟨.failed e, b', .never⟩) : Course C seeds b [] (some e) b' := by
  have hn : (seeds.closure C).next ⟨{}, b⟩ .never =
      ⟨.failed e, ⟨⟨some e, false⟩, b'⟩, .never⟩ := Scanner.next_never rfl hpull
  exact ⟨Scanner.drain_failed hn, by rw [Scanner.stops_failed hn]; rfl⟩

theorem Course.found {p : Handle × Tags}
    (hpull : C.pull seeds { b with current := none } .never = ⟨.found p.1, b₁, .never⟩)
    (hcurrent : b₁.current = some p) (h : Course C seeds b₁ es error b') :
    Course C seeds b (⟨b₁.depth, p.1, p.2⟩ :: es) error b' := by
  have hn : (seeds.closure C).next ⟨{}, b⟩ .never = ⟨.found p.1, ⟨{}, b₁⟩, .never⟩ :=
    Scanner.next_never rfl hpull
  have htags : (seeds.closure C).tags ⟨{}, b₁⟩ = tagsAt C.store C.depthNames b₁.depth p.2 := by
    show C.tags b₁ = _
    rw [Closure.tags, hcurrent]
    rfl
  have ha : (seeds.closure C).alternates ⟨{}, b₁⟩ .never =
      ⟨[tagsAt C.store C.depthNames b₁.depth p.2], none, ⟨{}, b₁⟩, .never⟩ := by
    rw [← htags]
    exact Cursor.alternates_nothing rfl
  constructor
  · rw [Scanner.drain_found hn rfl ha, h.drain]
    rfl
  · have hemission : ClosureState.emission? b₁ = some ⟨b₁.depth, p.1, p.2⟩ := by
      rw [ClosureState.emission?, hcurrent]
      rfl
    rw [Scanner.stops_found hn ha, List.map_cons, h.stops, hemission]
    rfl

theorem Course.congr (hpull : C.pull seeds { b with current := none } .never =
    C.pull seeds { b₁ with current := none } .never) (h : Course C seeds b₁ es error b') :
    Course C seeds b es error b' := by
  have hn : (seeds.closure C).next ⟨{}, b⟩ .never = (seeds.closure C).next ⟨{}, b₁⟩ .never :=
    Scanner.next_congr rfl rfl hpull
  exact ⟨(Scanner.drain_congr hn).trans h.drain, by rw [Scanner.stops_congr hn, h.stops]⟩

variable {frontier seen : Reached} {depth : Nat}

theorem Course.queued
    (h : ∀ c, Course C seeds ⟨some frontier, depth, seen, [], false, c⟩ es error b')
    (queue : Reached) : ∀ c, Course C seeds ⟨some frontier, depth, seen, queue, false, c⟩
      (Emission.ofQueue depth queue ++ es) error b' := by
  induction queue with
  | nil => exact h
  | cons p queue ih => exact fun c => Course.found (p := p) rfl rfl (ih (some p))

structure Exhausted (b : ClosureState) : Prop where
  queue : b.queue = []
  finished : b.finished = true
  current : b.current = none

theorem Exhausted.next (h : Exhausted b) :
    (seeds.closure C).next ⟨{}, b⟩ .never = ⟨.nothing, ⟨{}, b⟩, .never⟩ := by
  obtain ⟨frontier, depth, seen, queue, finished, current⟩ := b
  obtain ⟨rfl, rfl, rfl⟩ := h
  exact Scanner.next_never rfl rfl

end Closure

/-! ## The levels of a run -/

/-- The levels that have been expanded, and what the expansion of one more has failed with, if it
has. -/
structure LevelRun where
  levels : List Level
  error : Option QueryError

def LevelRun.onward (bindings : ClosureBindings) (maxDepth : Nat) (expand : Reached → Delivered)
    (seen frontier : Reached) (depth : Nat) : LevelRun :=
  if _h : frontier ≠ [] ∧ (maxDepth = 0 ∨ depth < maxDepth) then
    match (expand frontier).error with
    | some e => ⟨[], some e⟩
    | none =>
        let l := Level.ofRows bindings seen frontier (expand frontier).rows
        let rest := LevelRun.onward bindings maxDepth expand l.seen l.fresh (depth + 1)
        ⟨l :: rest.levels, rest.error⟩
  else ⟨[], none⟩
termination_by levelsFrom seen (some frontier)
decreasing_by exact Level.levelsFrom_lt bindings seen _h.1 _

section

variable {bindings : ClosureBindings} {maxDepth : Nat} {expand : Reached → Delivered}
  {seen frontier : Reached} {depth : Nat}

theorem LevelRun.onward_closed (hclosed : ¬ (frontier ≠ [] ∧ (maxDepth = 0 ∨ depth < maxDepth))) :
    LevelRun.onward bindings maxDepth expand seen frontier depth = ⟨[], none⟩ := by
  rw [LevelRun.onward, dif_neg hclosed]

theorem LevelRun.onward_broken (hopen : frontier ≠ [] ∧ (maxDepth = 0 ∨ depth < maxDepth))
    {e : QueryError} (he : (expand frontier).error = some e) :
    LevelRun.onward bindings maxDepth expand seen frontier depth = ⟨[], some e⟩ := by
  rw [LevelRun.onward, dif_pos hopen, he]

theorem LevelRun.onward_level (hopen : frontier ≠ [] ∧ (maxDepth = 0 ∨ depth < maxDepth))
    (he : (expand frontier).error = none) :
    let l := Level.ofRows bindings seen frontier (expand frontier).rows
    ∀ {rest : LevelRun},
      LevelRun.onward bindings maxDepth expand l.seen l.fresh (depth + 1) = rest →
      LevelRun.onward bindings maxDepth expand seen frontier depth =
        ⟨l :: rest.levels, rest.error⟩ := by
  rintro l rest rfl
  rw [LevelRun.onward, dif_pos hopen, he]

end

/-- What holds where a run ends, and of one more level if of those after it, holds of a run. -/
theorem LevelRun.onward_induct {bindings : ClosureBindings} {maxDepth : Nat}
    {expand : Reached → Delivered} {P : Reached → Reached → Nat → List Level → Prop}
    (hend : ∀ seen frontier depth,
      (frontier ≠ [] → (maxDepth = 0 ∨ depth < maxDepth) → (expand frontier).error ≠ none) →
      P seen frontier depth [])
    (hlevel : ∀ seen frontier depth ls, frontier ≠ [] → (maxDepth = 0 ∨ depth < maxDepth) →
      let l := Level.ofRows bindings seen frontier (expand frontier).rows
      P l.seen l.fresh (depth + 1) ls → P seen frontier depth (l :: ls))
    (seen frontier : Reached) (depth : Nat) :
    P seen frontier depth
      (LevelRun.onward bindings maxDepth expand seen frontier depth).levels := by
  induction seen, frontier, depth using LevelRun.onward.induct bindings maxDepth expand with
  | case1 seen frontier depth hopen e he =>
      rw [LevelRun.onward_broken hopen he]
      exact hend seen frontier depth fun _ _ => by simp [he]
  | case2 seen frontier depth hopen he l ih =>
      rw [LevelRun.onward_level hopen he rfl]
      exact hlevel seen frontier depth _ hopen.1 hopen.2 ih
  | case3 seen frontier depth hclosed =>
      rw [LevelRun.onward_closed hclosed]
      exact hend seen frontier depth fun hne hmax => (hclosed ⟨hne, hmax⟩).elim

theorem LevelRun.error_onward (ok : Handle → Prop) {expand : Reached → Delivered}
    (he : ∀ frontier : Reached, (∀ p ∈ frontier, ok p.1) →
      (expand frontier).error = none ∧ ∀ r ∈ (expand frontier).rows, ok r.handle)
    (bindings : ClosureBindings) (maxDepth : Nat) {seen frontier : Reached} {depth : Nat}
    (hf : ∀ p ∈ frontier, ok p.1) :
    (LevelRun.onward bindings maxDepth expand seen frontier depth).error = none := by
  induction seen, frontier, depth using LevelRun.onward.induct bindings maxDepth expand with
  | case1 seen frontier depth hopen e herr =>
      rw [(he frontier hf).1] at herr
      simp at herr
  | case2 seen frontier depth hopen hnone l ih =>
      rw [LevelRun.onward_level hopen hnone rfl]
      refine ih fun p hp => ?_
      have hshown := ((Level.made_ofRows bindings seen frontier _).mem_fresh.1 hp).1
      obtain ⟨r, hr, hhandle⟩ := (Level.origin_of_mem_shown hshown).1
      exact hhandle ▸ (he frontier hf).2 r hr
  | case3 seen frontier depth hclosed =>
      rw [LevelRun.onward_closed hclosed]

def LevelRun.ofSeeds (bindings : ClosureBindings) (maxDepth : Nat) (expand : Reached → Delivered)
    (seeds : Delivered) : LevelRun :=
  match seeds.error with
  | some e => ⟨[], some e⟩
  | none => LevelRun.onward bindings maxDepth expand [] (.ofRows seeds.rows) 0

namespace Closure

variable {C : Closure} {seeds : Scanner} {expand : Reached → Delivered} {seen frontier : Reached}
  {depth : Nat}

/-- By induction on the levels: the course of a closure is what its levels show, and its depth is
their number. -/
theorem course_onward (seeds : Scanner) (hC : C.Expands expand) (seen frontier : Reached)
    (depth : Nat) :
    let r := LevelRun.onward C.bindings C.maxDepth expand seen frontier depth
    ∃ b', (∀ c, Course C seeds ⟨some frontier, depth, seen, [], false, c⟩
        (Emission.ofLevels depth r.levels) r.error b') ∧
      b'.depth = depth + r.levels.length ∧ (r.error = none → Exhausted b') := by
  induction seen, frontier, depth using LevelRun.onward.induct C.bindings C.maxDepth expand with
  | case1 seen frontier depth hopen e he =>
      rw [LevelRun.onward_broken hopen he]
      have hpull : C.pull seeds ⟨some frontier, depth, seen, [], false, none⟩ .never =
          ⟨.failed e, ⟨some frontier, depth, seen, [], false, none⟩, .never⟩ :=
        pull_broken seeds hC hopen he
      refine ⟨_, fun _ => .broken hpull, ?_⟩
      exact ⟨rfl, fun herror => by simp at herror⟩
  | case2 seen frontier depth hopen he l ih =>
      have hexp : C.expand ⟨some frontier, depth, seen, [], false, none⟩ frontier .never =
          ⟨.found (), ⟨some l.fresh, depth + 1, l.seen, l.shown, false, none⟩, .never⟩ :=
        expand_never seen depth hC he
      generalize hrest :
        LevelRun.onward C.bindings C.maxDepth expand l.seen l.fresh (depth + 1) = rest at ih
      obtain ⟨b', hcourse, hdepth, hend⟩ := ih
      rw [LevelRun.onward_level hopen he hrest]
      cases hshown : l.shown with
      | nil =>
          -- Nothing is passed on either, so the run ends where the closure notices it.
          have hfresh : l.fresh = [] :=
            (Level.made_ofRows C.bindings seen frontier _).fresh_eq_nil hshown
          rw [hfresh, LevelRun.onward_closed fun h => h.1 rfl] at hrest
          subst hrest
          rw [hshown] at hexp
          have hpull := pull_dry seeds hopen hexp
          refine ⟨⟨some l.fresh, depth + 1, l.seen, [], true, none⟩, fun c => ?_, rfl,
            fun _ => ⟨rfl, rfl, rfl⟩⟩
          show Course C seeds _ (Emission.ofQueue (depth + 1) l.shown ++ []) none _
          rw [hshown]
          exact .ended hpull
      | cons p queue =>
          rw [hshown] at hexp
          have hpull := pull_first seeds hopen hexp
          refine ⟨b', fun c => ?_, ?_, hend⟩
          · show Course C seeds _ (Emission.ofQueue (depth + 1) l.shown ++ _) _ _
            rw [hshown]
            exact .found hpull rfl (.queued hcourse queue _)
          · rw [hdepth, List.length_cons, Nat.add_assoc, Nat.add_comm 1]
  | case3 seen frontier depth hclosed =>
      rw [LevelRun.onward_closed hclosed]
      have hpull : C.pull seeds ⟨some frontier, depth, seen, [], false, none⟩ .never =
          ⟨.nothing, ⟨some frontier, depth, seen, [], true, none⟩, .never⟩ :=
        pull_closed seeds hclosed
      refine ⟨_, fun _ => .ended hpull, ?_⟩
      exact ⟨rfl, fun _ => ⟨rfl, rfl, rfl⟩⟩

/-- The course of a closure from its seeds on. -/
theorem course_ofSeeds {d : Delivered} {s' : seeds.State}
    (hs : seeds.record (fun _ => none) .never = ⟨d.complete, s', .never⟩) (hC : C.Expands expand) :
    let r := LevelRun.ofSeeds C.bindings C.maxDepth expand d
    ∃ b', Course C seeds ⟨none, 0, [], [], false, none⟩ (Emission.ofLevels 0 r.levels) r.error b' ∧
      b'.depth = r.levels.length ∧ (r.error = none → Exhausted b') := by
  unfold LevelRun.ofSeeds
  cases he : d.error with
  | some e =>
      have hpull : C.pull seeds ⟨none, 0, [], [], false, none⟩ .never =
          ⟨.failed e, ⟨none, 0, [], [], false, none⟩, .never⟩ := by
        simp only [pull, show?, hs, Delivered.complete, he]
        rfl
      refine ⟨_, .broken hpull, ?_⟩
      exact ⟨rfl, fun herror => by simp at herror⟩
  | none =>
      obtain ⟨b', hcourse, hdepth, hend⟩ :=
        course_onward seeds hC [] (.ofRows d.rows) 0
      refine ⟨b', .congr ?_ (hcourse none), by rw [hdepth, Nat.zero_add], hend⟩
      show C.pull seeds ⟨none, 0, [], [], false, none⟩ .never =
        C.pull seeds ⟨some _, 0, [], [], false, none⟩ .never
      simp only [pull, show?, hs, Delivered.complete, he]
      rfl

end Closure

/-! ## No repetition -/

section

variable {seen frontier : Reached} {depth : Nat} {es fs : List Emission}

/-- No handle is emitted twice with one binding set, and none with one that it was seen with. -/
structure Unrepeated (seen : Reached) (es : List Emission) : Prop where
  new : ∀ e ∈ es, e.pair ∉ seen
  nodup : (es.map Emission.pair).Nodup

theorem Unrepeated.append_level {candidates : Reached} {l : Level}
    (hl : Level.Made seen candidates l) (h : Unrepeated l.seen es) :
    Unrepeated seen (Emission.ofQueue depth l.shown ++ es) := by
  have hnew : ∀ e ∈ es, e.pair ∉ seen ∧ e.pair ∉ l.shown := by
    intro e he
    simpa [hl.grown] using h.new e he
  constructor
  · intro e he
    rcases List.mem_append.1 he with he | he
    · exact (hl.new _ (Emission.mem_ofQueue.1 he).2).2
    · exact (hnew e he).1
  · rw [List.map_append, Emission.map_pair_ofQueue]
    refine List.nodup_append.2 ⟨hl.nodup, h.nodup, fun p hp q hq => ?_⟩
    obtain ⟨e, he, rfl⟩ := List.mem_map.1 hq
    rintro rfl
    exact (hnew e he).2 hp

theorem unrepeated_onward (bindings : ClosureBindings) (maxDepth : Nat)
    (expand : Reached → Delivered) (seen frontier : Reached) (depth : Nat) :
    Unrepeated seen (Emission.ofLevels depth
      (LevelRun.onward bindings maxDepth expand seen frontier depth).levels) := by
  refine LevelRun.onward_induct
    (P := fun seen frontier depth ls => Unrepeated seen (Emission.ofLevels depth ls)) ?_ ?_
    seen frontier depth
  · exact fun _ _ _ _ => ⟨by simp [Emission.ofLevels], .nil⟩
  · exact fun seen frontier depth ls _ _ ih =>
      .append_level (Level.made_ofRows bindings seen frontier _) ih

end

/-! ## Closures of plans -/

def Closure.level (C : Closure) (inputs : HandleList) : Scanner :=
  (C.apply ((Roles.ofHandles inputs).naming [baseName])).scanner

namespace Plan

variable (store : QuadStore) (seeds morphism : Plan) (maxDepth : Nat) (names : List String)
  (bindings : ClosureBindings)

def closing : Closure :=
  ⟨store, fun input => morphism.rolesOn store input, maxDepth, names, bindings⟩

theorem scanner_recursive :
    ((Plan.recursive seeds morphism maxDepth names bindings).roles store).scanner =
      (seeds.roles store).scanner.closure (closing store morphism maxDepth names bindings) :=
  rfl

/-- What a drain of a closure stops at. -/
def emissions : List Emission :=
  let S := (seeds.roles store).scanner.closure (closing store morphism maxDepth names bindings)
  (S.stops S.fresh .never).filterMap fun s => ClosureState.emission? s.body

theorem shows_level (inputs : HandleList) :
    let level := (closing store morphism maxDepth names bindings).level inputs
    level.Shows (morphism.meaningOn store
      ((Meaning.leaf inputs.toList inputs.contains).naming [baseName])).feed level.fresh :=
  (realizes_on store ((Roles.realizes_leaf inputs.toList inputs.contains).naming [baseName])
    morphism).shows

theorem expands_closing : (closing store morphism maxDepth names bindings).Expands
    fun frontier => (morphism.meaningOn store (.level frontier)).feed.delivered :=
  fun frontier => (shows_level store morphism maxDepth names bindings frontier.inputs).record _

/-- What a closure emits and reports, read off its levels. -/
theorem emissions_eq {seedRows : List Row}
    (hrows : (seeds.roles store).scanner.report .never = (.ok seedRows, .never)) :
    let r := LevelRun.onward bindings maxDepth
      (fun frontier => (morphism.meaningOn store (.level frontier)).feed.delivered) []
      (.ofRows seedRows) 0
    emissions store seeds morphism maxDepth names bindings = Emission.ofLevels 0 r.levels ∧
    (r.error = none →
      ((Plan.recursive seeds morphism maxDepth names bindings).roles store).scanner.report .never =
        (.ok ((Emission.ofLevels 0 r.levels).map (Emission.row (Closure.tagsAt store names))),
          .never)) := by
  intro r
  obtain ⟨s', hrecord⟩ := (seeds.realizes store).shows.record fun _ => none
  rw [show (seeds.meaning store).feed.drain (fun _ => none) = _ from delivered_of_report hrows]
    at hrecord
  obtain ⟨b', hcourse, -⟩ : ∃ b', Closure.Course (closing store morphism maxDepth names bindings)
      (seeds.roles store).scanner ⟨none, 0, [], [], false, none⟩ (Emission.ofLevels 0 r.levels)
      r.error b' ∧ _ :=
    Closure.course_ofSeeds hrecord (expands_closing store morphism maxDepth names bindings)
  refine ⟨hcourse.filterMap_stops, fun herror => ?_⟩
  have hreport : ((seeds.roles store).scanner.closure
      (closing store morphism maxDepth names bindings)).report .never = _ :=
    congrArg Run.report hcourse.drain
  rw [scanner_recursive, hreport, herror]
  rfl

end Plan

end GraphQuery
