import GraphQuery.Cursor.Group

/-!
# Unions

A scanner that shows all results of one branch after another, and an index that shows, for one
handle, the binding sets of one branch after another.
-/

namespace GraphQuery

/-! ## Scanning the branches -/

/-- The state of the branch being scanned; those before it are done with. After the last branch
there is an end. -/
def BranchState : List Scanner → Type
  | [] => Unit
  | S :: Ss => S.State ⊕ BranchState Ss

namespace BranchState

/-- The start of the first branch. -/
def fresh : (Ss : List Scanner) → BranchState Ss
  | [] => ()
  | S :: _ => .inl S.fresh

def result : (Ss : List Scanner) → BranchState Ss → Option Handle
  | [], _ => none
  | S :: _, .inl s => S.result s
  | _ :: Ss, .inr b => result Ss b

def tags : (Ss : List Scanner) → BranchState Ss → Tags
  | [], _ => .empty
  | S :: _, .inl s => S.tags s
  | _ :: Ss, .inr b => tags Ss b

def close : (Ss : List Scanner) → BranchState Ss → BranchState Ss
  | [], b => b
  | S :: _, .inl s => .inl (S.close s)
  | _ :: Ss, .inr b => .inr (close Ss b)

def turn : (Ss : List Scanner) → BranchState Ss → Token → Outcome Unit (BranchState Ss)
  | [], b, t => ⟨.nothing, b, t⟩
  | S :: _, .inl s, t => (S.nextPath s t).inState .inl
  | _ :: Ss, .inr b, t => (turn Ss b t).inState .inr

/-- Pulls from a branch, and goes on to the branches after it once it has ended, with a check of the
token before. -/
def pullThen (S : Scanner) {β : Type} (later : β) (pullLater : Token → Outcome Handle β)
    (s : S.State) (t : Token) : Outcome Handle (S.State ⊕ β) :=
  let o := S.next s t
  match o.answer with
  | .found h => ⟨.found h, .inl o.state, o.token⟩
  | .failed e => ⟨.failed e, .inl o.state, o.token⟩
  | .nothing =>
      match o.token.check with
      | (some e, t) => ⟨.failed e, .inr later, t⟩
      | (none, t) => (pullLater t).inState .inr

/-- Pulls from the branch, and from those after it once it has ended. -/
def pull : (Ss : List Scanner) → BranchState Ss → Token → Outcome Handle (BranchState Ss)
  | [], b, t => ⟨.nothing, b, t⟩
  | S :: Ss, .inl s, t => pullThen S (fresh Ss) (pull Ss (fresh Ss)) s t
  | _ :: Ss, .inr b, t => (pull Ss b t).inState .inr

/-- A later branch is below an earlier one. -/
def descent : (Ss : List Scanner) → Descent (BranchState Ss)
  | [] => .flat Unit
  | S :: Ss => .sum S.order (descent Ss)

theorem turn_le : ∀ (Ss : List Scanner) (b : BranchState Ss) (t : Token),
    (descent Ss).le (turn Ss b t).state b
  | [], _, _ => trivial
  | S :: _, .inl s, t => S.nextPath_le s t
  | _ :: Ss, .inr b, t => turn_le Ss b t

theorem pullThen_le (S : Scanner) {β : Type} (d : Descent β) (later : β)
    (pullLater : Token → Outcome Handle β) (s : S.State) (t : Token) :
    (Descent.sum S.order d).le (pullThen S later pullLater s t).state (.inl s) := by
  unfold pullThen
  dsimp only
  split
  · exact S.next_le s t
  · exact S.next_le s t
  · split <;> trivial

theorem pullThen_lt {S : Scanner} {β : Type} (d : Descent β) {later : β}
    {pullLater : Token → Outcome Handle β} {s : S.State} {t : Token} {h : Handle}
    (hf : (pullThen S later pullLater s t).answer = .found h) :
    (Descent.sum S.order d).lt (pullThen S later pullLater s t).state (.inl s) := by
  unfold pullThen at hf ⊢
  dsimp only at hf ⊢
  split at hf
  · rename_i ha
    exact Scanner.next_lt ha
  · simp at hf
  · split at hf
    · simp at hf
    · trivial

theorem pull_le : ∀ (Ss : List Scanner) (b : BranchState Ss) (t : Token),
    (descent Ss).le (pull Ss b t).state b
  | [], _, _ => trivial
  | S :: Ss, .inl s, t => pullThen_le S (descent Ss) (fresh Ss) (pull Ss (fresh Ss)) s t
  | _ :: Ss, .inr b, t => pull_le Ss b t

theorem pull_lt : ∀ (Ss : List Scanner) (b : BranchState Ss) (t : Token) (h : Handle),
    (pull Ss b t).answer = .found h → (descent Ss).lt (pull Ss b t).state b
  | [], _, _, _, hf => by simp [pull] at hf
  | S :: Ss, .inl s, t, h, hf => pullThen_lt (descent Ss) hf
  | _ :: Ss, .inr b, t, h, hf => pull_lt Ss b t h hf

theorem turns_end : ∀ Ss : List Scanner, WellFounded fun b' b =>
    ∃ t, (turn Ss b t).answer = .found () ∧ (turn Ss b t).state = b'
  | [] => ⟨fun _ => ⟨_, fun _ ⟨_, h, _⟩ => by simp [turn] at h⟩⟩
  | S :: Ss => by
      refine ⟨fun b => ?_⟩
      cases b with
      | inl s =>
          induction S.paths_end.apply s with
          | intro s _ ih =>
              refine ⟨_, ?_⟩
              rintro _ ⟨t, hf, rfl⟩
              exact ih _ ⟨t, hf, rfl⟩
      | inr b =>
          induction (turns_end Ss).apply b with
          | intro b _ ih =>
              refine ⟨_, ?_⟩
              rintro _ ⟨t, hf, rfl⟩
              exact ih _ ⟨t, hf, rfl⟩

end BranchState

/-- All results of one scanner after another. -/
def Scanner.union (Ss : List Scanner) : Scanner where
  Body := BranchState Ss
  start := BranchState.fresh Ss
  shown := BranchState.result Ss
  binds := BranchState.tags Ss
  canTurn _ := true
  turn := BranchState.turn Ss
  release := BranchState.close Ss
  turns_end := BranchState.turns_end Ss
  clear := id
  canPull _ := true
  pull := BranchState.pull Ss
  descent := BranchState.descent Ss
  clear_le := (BranchState.descent Ss).refl
  turn_le := BranchState.turn_le Ss
  pull_le := BranchState.pull_le Ss
  pull_lt := BranchState.pull_lt Ss

/-! ## Probing the branches -/

/-- The handle looked for, and the position of the branch that shows it. -/
structure Search (Is : List Index) where
  branches : GroupState Is
  candidate : Option Handle
  current : Option Nat

namespace Search

variable {Is : List Index}

/-- Looks for the handle in `count` branches from a position on, with a check of the token before
each of them. -/
def seek (h : Handle) : Nat → Nat → GroupState Is → Token → Outcome Nat (GroupState Is)
  | _, 0, g, t => ⟨.nothing, g, t⟩
  | i, count + 1, g, t =>
      match t.check with
      | (some e, t) => ⟨.failed e, g, t⟩
      | (none, t) =>
          let o := GroupState.containsAt Is i h g t
          match o.answer with
          | .found _ => ⟨.found i, o.state, o.token⟩
          | .failed e => ⟨.failed e, o.state, o.token⟩
          | .nothing => seek h (i + 1) count o.state o.token

/-- Shows the first branch from a position on that holds the handle. -/
def moveTo (b : Search Is) (h : Handle) (i : Nat) (g : GroupState Is) (t : Token) :
    Outcome Unit (Search Is) :=
  let o := seek h i (Is.length - i) g t
  (o.inState fun g => ⟨g, b.candidate, o.answer.value?⟩).mapValue fun _ => ()

/-- The next binding set of the branch shown, or the first of a later branch. -/
def turn (b : Search Is) (t : Token) : Outcome Unit (Search Is) :=
  match b.current, b.candidate with
  | some i, some h =>
      let o := GroupState.turnAt Is i b.branches t
      match o.answer with
      | .nothing => b.moveTo h (i + 1) o.state o.token
      | answer => ⟨answer, { b with branches := o.state }, o.token⟩
  | _, _ => ⟨.nothing, b, t⟩

theorem le_of_seek {h : Handle} : ∀ {count i : Nat} {g : GroupState Is} {t : Token} {j : Nat},
    (seek h i count g t).answer = .found j → i ≤ j ∧ j < i + count
  | 0, _, _, _, _, hf => by simp [seek] at hf
  | count + 1, i, g, t, j, hf => by
      unfold seek at hf
      dsimp only at hf
      split at hf
      · simp at hf
      · split at hf
        · simp only [Answer.found.injEq] at hf
          omega
        · simp at hf
        · have := le_of_seek hf
          omega

/-- A later branch comes after an earlier one; within a branch its own binding sets count. -/
def Later (b' b : Search Is) : Prop :=
  (∃ i j, b.current = some i ∧ b'.current = some j ∧ i < j ∧ j < Is.length) ∨
    ∃ i, b.current = some i ∧ b'.current = some i ∧
      ∃ t, (GroupState.turnAt Is i b.branches t).answer = .found () ∧
        (GroupState.turnAt Is i b.branches t).state = b'.branches

theorem acc_later : ∀ (n i : Nat), Is.length - i ≤ n → ∀ b : Search Is, b.current = some i →
    Acc Later b := by
  intro n
  induction n with
  | zero =>
      intro i hi b hb
      generalize hg : b.branches = g
      induction (GroupState.turns_end Is i).apply g generalizing b with
      | intro g _ ih =>
          subst hg
          refine ⟨_, ?_⟩
          rintro c (⟨i', j, hi', hj, hlt, hlen⟩ | ⟨i', hi', hc, t, ht, hs⟩)
          · obtain rfl : i' = i := by simpa [hb] using hi'.symm
            omega
          · obtain rfl : i' = i := by simpa [hb] using hi'.symm
            exact ih _ ⟨t, ht, hs⟩ c hc rfl
  | succ n ihn =>
      intro i hi b hb
      generalize hg : b.branches = g
      induction (GroupState.turns_end Is i).apply g generalizing b with
      | intro g _ ih =>
          subst hg
          refine ⟨_, ?_⟩
          rintro c (⟨i', j, hi', hj, hlt, hlen⟩ | ⟨i', hi', hc, t, ht, hs⟩)
          · obtain rfl : i' = i := by simpa [hb] using hi'.symm
            exact ihn j (by omega) c hj
          · obtain rfl : i' = i := by simpa [hb] using hi'.symm
            exact ih _ ⟨t, ht, hs⟩ c hc rfl

theorem wf_later : WellFounded (@Later Is) := by
  refine ⟨fun b => ?_⟩
  cases hb : b.current with
  | none =>
      refine ⟨_, ?_⟩
      rintro c (⟨i, _, hi, _⟩ | ⟨i, hi, _⟩) <;> simp [hb] at hi
  | some i => exact acc_later _ i (Nat.le_refl _) b hb

theorem turns_end : WellFounded fun (b' b : Search Is) => ∃ t, (b.turn t).answer = .found () ∧
    (b.turn t).state = b' := by
  refine Subrelation.wf ?_ wf_later
  rintro _ b ⟨t, hf, rfl⟩
  unfold turn at hf ⊢
  split at hf
  · rename_i i h hi hh
    dsimp only at hf ⊢
    split at hf
    · unfold moveTo at hf ⊢
      simp only [Outcome.mapValue, Outcome.inState] at hf ⊢
      cases hs : (seek h (i + 1) (Is.length - (i + 1)) (GroupState.turnAt Is i b.branches t).state
        (GroupState.turnAt Is i b.branches t).token).answer with
      | nothing => simp [hs, Answer.map] at hf
      | failed e => simp [hs, Answer.map] at hf
      | found j =>
          have hj := le_of_seek hs
          exact .inl ⟨i, j, hi, rfl, by omega, by omega⟩
    · rename_i hn
      simp only at hf
      refine .inr ⟨i, hi, ?_⟩
      cases ha : (GroupState.turnAt Is i b.branches t).answer with
      | found u => exact ⟨hi, t, ha, rfl⟩
      | nothing => exact (hn ha).elim
      | failed e => simp [ha] at hf
  · simp at hf

end Search

/-- The handles that any of the indexes holds, with the binding sets of one after the other. -/
def Index.union (Is : List Index) : Index where
  Body := Search Is
  start := ⟨.fresh Is, none, none⟩
  shown b := b.current.bind fun _ => b.candidate
  binds b :=
    match b.current with
    | some i => GroupState.tagsAt Is i b.branches
    | none => .empty
  canTurn b := b.current.isSome
  turn := Search.turn
  release b := { b with branches := .close Is b.branches }
  turns_end := Search.turns_end
  aim h b := { b with candidate := some h, current := none }
  probe h b t := b.moveTo h 0 b.branches t

/-- What any of several plans gives. -/
def Roles.union (Rs : List Roles) : Roles :=
  ⟨.union (Rs.map Roles.scanner), .union (Rs.map Roles.index)⟩

end GraphQuery
