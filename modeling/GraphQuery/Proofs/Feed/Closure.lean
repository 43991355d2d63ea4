import GraphQuery.Cursor.Closure
import GraphQuery.Proofs.Feed.Leaf
import GraphQuery.Proofs.Feed.Listing

/-!
# What closures show

Level after level: what a level reaches for the first time, or under binding sets that are new, is
shown in order, and the next level starts from what was new. A level that reaches nothing is the
last.
-/

namespace GraphQuery

def Closure.tagsAt (store : QuadStore) (names : List String) (depth : Nat) (tags : Tags) : Tags :=
  if names.isEmpty then tags
  else
    match store.intern (.int (.ofNat depth)) with
    | none => tags
    | some d => tags.insertAll names d

def Feed.queued (tagsAt : Tags → Tags) : Reached → Feed → Feed
  | [], next => next
  | p :: queue, next => .row p.1 [tagsAt p.2] fun _ => queued tagsAt queue next

def Feed.levels (bindings : ClosureBindings) (maxDepth : Nat) (tagsAt : Nat → Tags → Tags)
    (expand : Reached → Delivered) (seen frontier : Reached) (depth : Nat) : Feed :=
  if _h : frontier ≠ [] ∧ (maxDepth = 0 ∨ depth < maxDepth) then
    match (expand frontier).error with
    | some e => .failed e
    | none =>
        let l := Level.ofRows bindings seen frontier (expand frontier).rows
        if l.shown = [] then .done
        else queued (tagsAt (depth + 1)) l.shown
          (levels bindings maxDepth tagsAt expand l.seen l.fresh (depth + 1))
  else .done
termination_by levelsFrom seen (some frontier)
decreasing_by exact Level.levelsFrom_lt bindings seen _h.1 _

def Feed.closure (bindings : ClosureBindings) (maxDepth : Nat) (tagsAt : Nat → Tags → Tags)
    (expand : Reached → Delivered) (F : Feed) : Feed :=
  match F.delivered.error with
  | some e => .failed e
  | none => levels bindings maxDepth tagsAt expand [] (.ofRows F.delivered.rows) 0

section Closure

variable {C : Closure} {seeds : Scanner} {expand : Reached → Delivered}

def Closure.Expands (C : Closure) (expand : Reached → Delivered) : Prop :=
  ∀ frontier : Reached, ∃ s',
    (C.apply ((Roles.ofHandles frontier.inputs).naming [baseName])).scanner.record (fun _ => none)
      .never = ⟨(expand frontier).complete, s', .never⟩

theorem Closure.isOpen_iff {b : ClosureState} {frontier : Reached} :
    C.isOpen b frontier = true ↔ frontier ≠ [] ∧ (C.maxDepth = 0 ∨ b.depth < C.maxDepth) := by
  simp [isOpen]

/-- What the closure shows from a state on, given its queue and what comes after it. -/
theorem Scanner.shows_queued {next : Feed} {frontier seen : Reached} {depth : Nat}
    (hnext : ∀ c, (seeds.closure C).Shows next ⟨{}, ⟨some frontier, depth, seen, [], false, c⟩⟩)
    (queue : Reached) : ∀ c, (seeds.closure C).Shows
      (.queued (Closure.tagsAt C.store C.depthNames depth) queue next)
      ⟨{}, ⟨some frontier, depth, seen, queue, false, c⟩⟩ := by
  induction queue with
  | nil => exact hnext
  | cons p queue ih =>
      intro c
      refine ⟨_, Scanner.next_never rfl rfl, rfl, rfl, ih _, ?_⟩
      exact ⟨_, rfl, ih _⟩

/-! ### The first pull of a level -/

section

variable {frontier seen : Reached} {depth : Nat}

/-- The closure ends at a level that it may not expand. -/
theorem Closure.pull_closed (seeds : Scanner)
    (hopen : ¬ (frontier ≠ [] ∧ (C.maxDepth = 0 ∨ depth < C.maxDepth))) :
    C.pull seeds ⟨some frontier, depth, seen, [], false, none⟩ .never =
      ⟨.nothing, ⟨some frontier, depth, seen, [], true, none⟩, .never⟩ := by
  have ho : C.isOpen ⟨some frontier, depth, seen, [], false, none⟩ frontier = false :=
    Bool.eq_false_iff.2 fun hh => hopen (Closure.isOpen_iff.1 hh)
  simp only [Closure.pull, Closure.show?, Closure.descend, ho]
  rfl

theorem Closure.pull_broken (seeds : Scanner) (hC : C.Expands expand)
    (hopen : frontier ≠ [] ∧ (C.maxDepth = 0 ∨ depth < C.maxDepth)) {e : QueryError}
    (he : (expand frontier).error = some e) :
    C.pull seeds ⟨some frontier, depth, seen, [], false, none⟩ .never =
      ⟨.failed e, ⟨some frontier, depth, seen, [], false, none⟩, .never⟩ := by
  have ho : C.isOpen ⟨some frontier, depth, seen, [], false, none⟩ frontier = true :=
    Closure.isOpen_iff.2 hopen
  obtain ⟨s', hrec⟩ := hC frontier
  simp only [Closure.pull, Closure.show?, Closure.descend, ho, Closure.expand, hrec,
    Delivered.complete, he]
  rfl

theorem Closure.expand_never (seen : Reached) (depth : Nat) (hC : C.Expands expand)
    (he : (expand frontier).error = none) :
    C.expand ⟨some frontier, depth, seen, [], false, none⟩ frontier .never =
      (let l := Level.ofRows C.bindings seen frontier (expand frontier).rows
       ⟨.found (), ⟨some l.fresh, depth + 1, l.seen, l.shown, false, none⟩, .never⟩) := by
  obtain ⟨s', hrec⟩ := hC frontier
  simp only [Closure.expand, hrec, Delivered.complete, he]
  rfl

/-- The closure ends if a level gives nothing to show. -/
theorem Closure.pull_dry (seeds : Scanner)
    (hopen : frontier ≠ [] ∧ (C.maxDepth = 0 ∨ depth < C.maxDepth))
    {fresh seen' : Reached}
    (hexp : C.expand ⟨some frontier, depth, seen, [], false, none⟩ frontier .never =
      ⟨.found (), ⟨some fresh, depth + 1, seen', [], false, none⟩, .never⟩) :
    C.pull seeds ⟨some frontier, depth, seen, [], false, none⟩ .never =
      ⟨.nothing, ⟨some fresh, depth + 1, seen', [], true, none⟩, .never⟩ := by
  have ho : C.isOpen ⟨some frontier, depth, seen, [], false, none⟩ frontier = true :=
    Closure.isOpen_iff.2 hopen
  simp only [Closure.pull, Closure.show?, Closure.descend, ho, if_true, hexp]
  rfl

theorem Closure.pull_first (seeds : Scanner)
    (hopen : frontier ≠ [] ∧ (C.maxDepth = 0 ∨ depth < C.maxDepth))
    {fresh seen' queue : Reached} {p : Handle × Tags}
    (hexp : C.expand ⟨some frontier, depth, seen, [], false, none⟩ frontier .never =
      ⟨.found (), ⟨some fresh, depth + 1, seen', p :: queue, false, none⟩, .never⟩) :
    C.pull seeds ⟨some frontier, depth, seen, [], false, none⟩ .never =
      ⟨.found p.1, ⟨some fresh, depth + 1, seen', queue, false, some p⟩, .never⟩ := by
  have ho : C.isOpen ⟨some frontier, depth, seen, [], false, none⟩ frontier = true :=
    Closure.isOpen_iff.2 hopen
  simp only [Closure.pull, Closure.show?, Closure.descend, ho, if_true, hexp]
  rfl

end

/-- By induction on what is left to be reached: each level that is expanded reaches more. -/
theorem Scanner.shows_levels (hC : C.Expands expand) (n : Nat) :
    ∀ (seen frontier : Reached) (depth : Nat) (c : Option (Handle × Tags)),
      levelsFrom seen (some frontier) = n →
      (seeds.closure C).Shows (.levels C.bindings C.maxDepth
        (Closure.tagsAt C.store C.depthNames) expand seen frontier depth)
        ⟨{}, ⟨some frontier, depth, seen, [], false, c⟩⟩ := by
  induction n using Nat.strongRecOn with
  | ind n ih =>
      intro seen frontier depth c hn
      rw [Feed.levels]
      by_cases hopen : frontier ≠ [] ∧ (C.maxDepth = 0 ∨ depth < C.maxDepth)
      · rw [dif_pos hopen]
        cases he : (expand frontier).error with
        | some e => exact ⟨_, Scanner.next_never rfl (Closure.pull_broken seeds hC hopen he)⟩
        | none =>
            have hexp := Closure.expand_never seen depth hC he
            have hlt := Level.levelsFrom_lt C.bindings seen hopen.1 (expand frontier).rows
            revert hexp hlt
            generalize Level.ofRows C.bindings seen frontier (expand frontier).rows = l
            intro hexp hlt
            dsimp only at hexp ⊢
            cases hshown : l.shown with
            | nil =>
                rw [hshown] at hexp
                rw [if_pos rfl]
                exact ⟨_, Scanner.next_never rfl (Closure.pull_dry seeds hopen hexp)⟩
            | cons p queue =>
                rw [hshown] at hexp
                rw [if_neg (by simp)]
                have hrest := fun c => ih _ (hn ▸ hlt) l.seen l.fresh (depth + 1) c rfl
                have hq := Scanner.shows_queued hrest
                have hpull := Closure.pull_first seeds hopen hexp
                refine ⟨_, Scanner.next_never rfl hpull, rfl, rfl, hq queue _, ?_⟩
                exact ⟨_, rfl, hq queue _⟩
      · rw [dif_neg hopen]
        exact ⟨_, Scanner.next_never rfl (Closure.pull_closed seeds hopen)⟩

theorem Scanner.Shows.closure {F : Feed} (hs : seeds.Shows F seeds.fresh) (hC : C.Expands expand) :
    (seeds.closure C).Shows (F.closure C.bindings C.maxDepth
      (Closure.tagsAt C.store C.depthNames) expand) (seeds.closure C).fresh := by
  obtain ⟨s', hrec⟩ := hs.record fun _ => none
  unfold Feed.closure
  cases he : F.delivered.error with
  | some e =>
      have hp : C.pull seeds ⟨none, 0, [], [], false, none⟩ .never =
          ⟨.failed e, ⟨none, 0, [], [], false, none⟩, .never⟩ := by
        simp only [Closure.pull, Closure.show?, hrec, Delivered.complete, he]
        rfl
      exact ⟨_, Scanner.next_never rfl hp⟩
  | none =>
      refine Scanner.Shows.congr (Scanner.next_congr rfl rfl ?_)
        (Scanner.shows_levels hC _ [] (.ofRows F.delivered.rows) 0 none rfl)
      show C.pull seeds ⟨none, 0, [], [], false, none⟩ .never =
        C.pull seeds ⟨some _, 0, [], [], false, none⟩ .never
      simp only [Closure.pull, Closure.show?, hrec, Delivered.complete, he]
      rfl

end Closure

end GraphQuery
