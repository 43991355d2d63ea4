import GraphQuery.Cursor.Leaf
import GraphQuery.Cursor.Listing
import GraphQuery.Cursor.Naming

/-!
# Closures

Everything that a morphism reaches from the results of a plan in one or more applications, breadth
first. A level applies the morphism to the frontier, that is to the seeds or to what the level
before reached for the first time. Every handle reached inherits the binding sets of the frontier
handles that it was reached from. Only finitely many handles can be new, so there are finitely many
levels.
-/

namespace GraphQuery

/-- What is shown of a handle that is reached more than once. -/
inductive ClosureBindings where
  /-- Its first binding set only. -/
  | first
  /-- Each of its binding sets once. -/
  | all
deriving DecidableEq, Inhabited, Repr

/-- Handles with binding sets inherited from the seeds, in the order in which they were reached. -/
abbrev Reached : Type :=
  List (Handle × Tags)

namespace Reached

def handles (r : Reached) : List Handle :=
  r.map Prod.fst

/-- The binding sets that a handle was reached with. -/
def inherited (r : Reached) (h : Handle) : List Tags :=
  (r.filter fun p => p.1 = h).map Prod.snd

/-- A binding set for a handle, unless it has it already. -/
def addNew (r : Reached) (p : Handle × Tags) : Reached :=
  if r.contains p then r else r ++ [p]

/-- The seeds: every result with its distinct binding sets. -/
def ofRows (rows : List Row) : Reached :=
  (rows.flatMap fun row => row.sets.map (row.handle, ·)).foldl addNew []

/-- The handles in ascending order. -/
def inputs (r : Reached) : HandleList :=
  .ofList (r.handles.mergeSort fun a b => a.raw ≤ b.raw)

end Reached

/-- The name under which a level binds the frontier handle that a result was reached from. -/
def baseName : String :=
  "__base_recursive"

/-- What one level has reached: everything reached so far, and of that what this level showed and
what it reached for the first time. -/
structure Level where
  seen : Reached
  shown : Reached
  fresh : Reached

namespace Level

/-- Takes in one more result of the level. A handle not seen before is shown and goes into the next
frontier. A handle seen before is shown again under a binding set that is new to it, if all are
asked for; it stays in the frontier of the level that saw it first. -/
def absorb (bindings : ClosureBindings) (level : Level) (p : Handle × Tags) : Level :=
  if level.seen.handles.contains p.1 then
    if bindings = .all ∧ ¬ level.seen.contains p then
      { seen := level.seen ++ [p]
        shown := level.shown ++ [p]
        fresh := if level.fresh.handles.contains p.1 then level.fresh ++ [p] else level.fresh }
    else level
  else
    { seen := level.seen ++ [p], shown := level.shown ++ [p], fresh := level.fresh ++ [p] }

/-- The results of a level with the binding sets that they inherit from the frontier. -/
def candidates (frontier : Reached) (rows : List Row) : Reached :=
  rows.flatMap fun row =>
    row.sets.flatMap fun tags =>
      match tags.get? baseName with
      | none => []
      | some base => (frontier.inherited base).map (row.handle, ·)

/-- The level that these results make. -/
def ofRows (bindings : ClosureBindings) (seen frontier : Reached) (rows : List Row) : Level :=
  (candidates frontier rows).foldl (absorb bindings) ⟨seen, [], []⟩

end Level

/-- A closure to be scanned: a morphism, the most applications of it (no bound if zero), and the
names that are bound to the number of applications. -/
structure Closure where
  store : QuadStore
  apply : Roles → Roles
  maxDepth : Nat
  depthNames : List String
  bindings : ClosureBindings

/-- How far a closure has come. -/
structure ClosureState where
  /-- What the next level starts from; `none` before the seeds are known. -/
  frontier : Option Reached
  depth : Nat
  seen : Reached
  /-- Reached, and still to be shown, all at the present depth. -/
  queue : Reached
  finished : Bool
  current : Option (Handle × Tags)

namespace Closure

/-- One level further from a frontier. -/
def expand (C : Closure) (b : ClosureState) (frontier : Reached) (t : Token) :
    Outcome Unit ClosureState :=
  let level := C.apply ((Roles.ofHandles frontier.inputs).naming [baseName])
  (level.scanner.record (fun _ => none) t).andThen
    (fun rows _ t =>
      let l := Level.ofRows C.bindings b.seen frontier rows
      ⟨.found (), { b with
        frontier := some l.fresh, depth := b.depth + 1, seen := l.seen, queue := l.shown }, t⟩)
    fun _ => b

/-- Shows what is next in the queue. -/
def show? (b : ClosureState) : Option (Handle × ClosureState) :=
  match b.queue with
  | [] => none
  | p :: queue => some (p.1, { b with queue, current := some p })

/-- The end of the closure; it is noticed after one more check of the token. -/
def finish (b : ClosureState) (t : Token) : Outcome Handle ClosureState :=
  match t.check with
  | (some e, t) => ⟨.failed e, { b with finished := true }, t⟩
  | (none, t) => ⟨.nothing, { b with finished := true }, t⟩

/-- Whether there is a further level. -/
def isOpen (C : Closure) (b : ClosureState) (frontier : Reached) : Bool :=
  !frontier.isEmpty && (C.maxDepth == 0 || b.depth < C.maxDepth)

/-- Shows the first result of a further level, if there is one. A level that reaches nothing is the
last. -/
def descend (C : Closure) (b : ClosureState) (frontier : Reached) (t : Token) :
    Outcome Handle ClosureState :=
  if C.isOpen b frontier then
    (C.expand b frontier t).andThen
      (fun _ b t =>
        match t.check with
        | (some e, t) => ⟨.failed e, b, t⟩
        | (none, t) =>
            match show? b with
            | some (h, b) => ⟨.found h, b, t⟩
            | none => finish b t)
      id
  else finish b t

/-- Shows the next result. -/
def pull (C : Closure) (seeds : Scanner) (b : ClosureState) (t : Token) :
    Outcome Handle ClosureState :=
  match show? b with
  | some (h, b) => ⟨.found h, b, t⟩
  | none =>
      if b.finished then ⟨.nothing, b, t⟩
      else
        match b.frontier with
        | some frontier => C.descend b frontier t
        | none =>
            (seeds.record (fun _ => none) t).andThen
              (fun rows _ t =>
                C.descend { b with frontier := some (.ofRows rows) } (.ofRows rows) t)
              fun _ => b

/-- The binding set shown, with the depth bound to its names if the store knows that number. -/
def tags (C : Closure) (b : ClosureState) : Tags :=
  match b.current with
  | none => .empty
  | some (_, tags) =>
      if C.depthNames.isEmpty then tags
      else
        match C.store.intern (.int (.ofNat b.depth)) with
        | none => tags
        | some depth => tags.insertAll C.depthNames depth

end Closure

/-! ## There are finitely many levels -/

/-- How many handles can still be new. -/
def Reached.unseen (seen : Reached) : Nat :=
  UInt32.size - (HandleList.ofList seen.handles).size

/-- A bound on the levels to come, given what has been seen. -/
def levelsFrom (seen : Reached) : Option Reached → Nat
  | none => UInt32.size + 2
  | some [] => 0
  | some (_ :: _) => seen.unseen + 1

theorem Reached.unseen_lt {seen seen' : Reached} (hs : ∀ h ∈ seen.handles, h ∈ seen'.handles)
    {x : Handle} (hx : x ∉ seen.handles) (hx' : x ∈ seen'.handles) :
    seen'.unseen < seen.unseen := by
  have hlt : (HandleList.ofList seen.handles).size < (HandleList.ofList seen'.handles).size :=
    HandleList.size_lt (x := x) (by simpa using hs) (by simpa using hx) (by simpa using hx')
  have hle := (HandleList.ofList seen'.handles).size_le
  unfold Reached.unseen
  omega

namespace Level

/-- A level forgets nothing, and what goes into the next frontier is new. -/
structure Extends (seen : Reached) (l : Level) : Prop where
  keeps : ∀ h ∈ seen.handles, h ∈ l.seen.handles
  fresh_new : ∀ h ∈ l.fresh.handles, h ∉ seen.handles ∧ h ∈ l.seen.handles

theorem extends_absorb {seen : Reached} {l : Level} (hl : Extends seen l)
    (bindings : ClosureBindings) (p : Handle × Tags) : Extends seen (l.absorb bindings p) := by
  obtain ⟨hk, hf⟩ := hl
  simp only [Reached.handles] at hk hf
  unfold absorb
  split
  · rename_i hp
    split
    · refine ⟨fun h hh => ?_, fun h hh => ?_⟩
      · simp only [Reached.handles, List.map_append, List.mem_append]
        exact .inl (hk h hh)
      · simp only [Reached.handles, List.map_append, List.mem_append] at hh ⊢
        by_cases hc : p.1 ∈ l.fresh.map Prod.fst
        · simp only [List.contains_eq_mem, hc, decide_true, if_true, List.map_append,
            List.map_cons, List.map_nil, List.mem_append, List.mem_singleton] at hh
          rcases hh with hh | rfl
          · exact ⟨(hf h hh).1, .inl (hf h hh).2⟩
          · exact ⟨(hf _ hc).1, .inl (hf _ hc).2⟩
        · simp only [List.contains_eq_mem, hc, decide_false, Bool.false_eq_true, if_false] at hh
          exact ⟨(hf h hh).1, .inl (hf h hh).2⟩
    · exact ⟨hk, hf⟩
  · rename_i hp
    simp only [Reached.handles, List.contains_eq_mem, decide_eq_true_eq] at hp
    refine ⟨fun h hh => ?_, fun h hh => ?_⟩
    · simp only [Reached.handles, List.map_append, List.mem_append]
      exact .inl (hk h hh)
    · simp only [Reached.handles, List.map_append, List.map_cons, List.map_nil, List.mem_append,
        List.mem_singleton] at hh ⊢
      rcases hh with hh | rfl
      · exact ⟨(hf h hh).1, .inl (hf h hh).2⟩
      · exact ⟨fun hs => hp (hk _ hs), .inr rfl⟩

theorem extends_ofRows (bindings : ClosureBindings) (seen frontier : Reached) (rows : List Row) :
    Extends seen (ofRows bindings seen frontier rows) := by
  unfold ofRows
  generalize candidates frontier rows = ps
  have : Extends seen ⟨seen, [], []⟩ := ⟨fun _ hh => hh, by simp [Reached.handles]⟩
  revert this
  generalize (⟨seen, [], []⟩ : Level) = l
  intro hl
  induction ps generalizing l with
  | nil => exact hl
  | cons p ps ih => exact ih _ (extends_absorb hl bindings p)

/-- A further level leaves fewer levels to come. -/
theorem levelsFrom_lt (bindings : ClosureBindings) (seen : Reached) {frontier : Reached}
    (hf : frontier ≠ []) (rows : List Row) :
    levelsFrom (ofRows bindings seen frontier rows).seen
        (some (ofRows bindings seen frontier rows).fresh) < levelsFrom seen (some frontier) := by
  have hl := extends_ofRows bindings seen frontier rows
  generalize ofRows bindings seen frontier rows = l at hl
  obtain ⟨q, qs, rfl⟩ := List.exists_cons_of_ne_nil hf
  rcases hfr : l.fresh with _ | ⟨p, ps⟩
  · simp [levelsFrom]
  · have hp := hl.fresh_new p.1 (by simp [Reached.handles, hfr])
    simp only [levelsFrom, Nat.add_lt_add_iff_right]
    exact Reached.unseen_lt hl.keeps hp.1 hp.2

end Level

theorem levelsFrom_some_le (seen frontier : Reached) :
    levelsFrom seen (some frontier) ≤ levelsFrom seen none := by
  unfold levelsFrom
  split
  · omega
  · omega
  · unfold Reached.unseen
    omega

namespace Closure

/-- Levels to come count first, then what is queued. -/
def descent : Descent ClosureState :=
  (Descent.lex .nat .nat).comap fun b => (levelsFrom b.seen b.frontier, b.queue.length)

theorem show?_lt {b b' : ClosureState} {h : Handle} (hb : show? b = some (h, b')) :
    descent.lt b' b := by
  unfold show? at hb
  split at hb
  · simp at hb
  · rename_i p queue hq
    simp only [Option.some.injEq, Prod.mk.injEq] at hb
    obtain ⟨-, rfl⟩ := hb
    refine .inr ⟨Nat.le_refl _, ?_⟩
    simp [Descent.nat, hq]

theorem finish_le (b : ClosureState) (t : Token) : descent.le (finish b t).state b := by
  unfold finish
  split <;> exact descent.refl b

theorem not_found_finish (b : ClosureState) (t : Token) (h : Handle) :
    (finish b t).answer ≠ .found h := by
  unfold finish
  split <;> simp

theorem expand_lt {C : Closure} {b : ClosureState} {frontier : Reached} {t : Token}
    (hb : b.frontier = some frontier) (ho : C.isOpen b frontier)
    (hf : (C.expand b frontier t).answer = .found ()) :
    descent.lt (C.expand b frontier t).state b := by
  unfold expand at hf ⊢
  obtain ⟨rows, _, heq⟩ := Outcome.found_andThen hf
  rw [heq]
  refine .inl ?_
  show levelsFrom _ _ < levelsFrom _ _
  rw [hb]
  refine Level.levelsFrom_lt C.bindings b.seen ?_ rows
  rintro rfl
  simp [isOpen] at ho

theorem descend_le (C : Closure) (b : ClosureState) (frontier : Reached) (t : Token)
    (hb : b.frontier = some frontier) : descent.le (C.descend b frontier t).state b := by
  unfold descend
  split
  · rename_i ho
    have he : descent.le (C.expand b frontier t).state b := by
      cases ha : (C.expand b frontier t).answer with
      | found u => exact descent.le_of_lt (expand_lt hb ho ha)
      | nothing =>
          unfold expand at ha ⊢
          exact Outcome.state_andThen (P := fun x => descent.le x b) (fun rows hr => by
            simp [Outcome.andThen, hr] at ha) (descent.refl b)
      | failed e =>
          unfold expand at ha ⊢
          exact Outcome.state_andThen (P := fun x => descent.le x b) (fun rows hr => by
            simp [Outcome.andThen, hr] at ha) (descent.refl b)
    refine Outcome.state_andThen (P := fun x => descent.le x b) (fun _ hf => ?_) he
    split
    · exact he
    · split
      · rename_i hs
        exact descent.trans (descent.le_of_lt (show?_lt hs)) he
      · exact descent.trans (finish_le _ _) he
  · exact finish_le b t

theorem descend_lt {C : Closure} {b : ClosureState} {frontier : Reached} {t : Token} {h : Handle}
    (hb : b.frontier = some frontier) (hf : (C.descend b frontier t).answer = .found h) :
    descent.lt (C.descend b frontier t).state b := by
  unfold descend at hf ⊢
  split at hf
  · rename_i ho
    rw [if_pos ho]
    obtain ⟨_, hx, heq⟩ := Outcome.found_andThen hf
    rw [heq] at hf ⊢
    split at hf
    · simp at hf
    · split at hf
      · rename_i hs
        exact descent.lt_of_lt_of_le (show?_lt hs) (descent.le_of_lt (expand_lt hb ho hx))
      · exact (not_found_finish _ _ _ hf).elim
  · exact (not_found_finish _ _ _ hf).elim

theorem loaded_le (b : ClosureState) (hb : b.frontier = none) (frontier : Reached) :
    descent.le { b with frontier := some frontier } b := by
  rcases Nat.lt_or_eq_of_le (levelsFrom_some_le b.seen frontier) with h | h
  · exact .inl (by simpa [Descent.nat, hb] using h)
  · exact .inr ⟨by simp [Descent.nat, hb, h], Nat.le_refl _⟩

theorem pull_le (C : Closure) (seeds : Scanner) (b : ClosureState) (t : Token) :
    descent.le (C.pull seeds b t).state b := by
  unfold pull
  split
  · rename_i hs
    exact descent.le_of_lt (show?_lt hs)
  · split
    · exact descent.refl b
    · split
      · rename_i hb
        exact descend_le C b _ t hb
      · rename_i hb
        exact Outcome.state_andThen (P := fun x => descent.le x b)
          (fun rows _ => descent.trans (descend_le C _ _ _ rfl) (loaded_le b hb _))
          (descent.refl b)

theorem pull_lt {C : Closure} {seeds : Scanner} {b : ClosureState} {t : Token} {h : Handle}
    (hf : (C.pull seeds b t).answer = .found h) : descent.lt (C.pull seeds b t).state b := by
  unfold pull at hf ⊢
  split at hf
  · rename_i hs
    exact show?_lt hs
  · split at hf
    · simp at hf
    · rename_i hd
      rw [if_neg hd]
      split at hf
      · rename_i hb
        exact descend_lt hb hf
      · rename_i hb
        obtain ⟨rows, _, heq⟩ := Outcome.found_andThen hf
        rw [heq] at hf ⊢
        exact descent.lt_of_lt_of_le (descend_lt rfl hf) (loaded_le b hb _)

end Closure

/-- Everything reached from the results of `seeds`. -/
def Scanner.closure (seeds : Scanner) (C : Closure) : Scanner where
  Body := ClosureState
  start := ⟨none, 0, [], [], false, none⟩
  shown b := b.current.map Prod.fst
  binds := C.tags
  canTurn _ := false
  turn b t := ⟨.nothing, b, t⟩
  release b := { b with current := none }
  turns_end := ⟨fun _ => ⟨_, fun _ ⟨_, h, _⟩ => by simp at h⟩⟩
  clear b := { b with current := none }
  canPull _ := true
  pull := C.pull seeds
  descent := Closure.descent
  clear_le b := Closure.descent.refl b
  turn_le b _ := Closure.descent.refl b
  pull_le := C.pull_le seeds
  pull_lt _ _ _ := Closure.pull_lt

end GraphQuery
