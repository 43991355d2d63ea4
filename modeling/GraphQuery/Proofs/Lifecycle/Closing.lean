import GraphQuery.Plan.Roles
import GraphQuery.Proofs.Lifecycle.History
import GraphQuery.Store.Memory

/-!
# Use after the end

A cursor that was closed without an error fails the next call on it, with the error that it is
closed. A limit that is used up is the exception: it compares its count before it comes to the
guard, and so it stays silent.
-/

namespace GraphQuery

theorem Index.contains_close {I : Index} {s : I.State} (he : I.error s = none) (h : Handle)
    (t : Token) :
    (I.contains h (I.close s) t).answer.isFound = false ∧
      I.error (I.contains h (I.close s) t).state = some .closed := by
  obtain ⟨ha, hs⟩ := Guarded.attempt_of_closed
    (s := ⟨{ s.status with closed := true }, I.aim h (I.release s.body)⟩) he rfl t (I.probe h)
  exact ⟨congrArg Answer.isFound ha, congrArg I.error hs⟩

/-- A closed scanner says so if it tries a pull at all. -/
theorem Scanner.next_close {S : Scanner} {s : S.State} (he : S.error s = none) (t : Token) :
    (S.next (S.close s) t).answer.isFound = false ∧
      S.error (S.next (S.close s) t).state =
        if S.canPull (S.release s.body) then some .closed else none := by
  unfold Scanner.next
  split
  · obtain ⟨ha, hs⟩ := Guarded.attempt_of_closed
      (s := ⟨{ s.status with closed := true }, S.clear (S.release s.body)⟩) he rfl t S.pull
    exact ⟨congrArg Answer.isFound ha, (congrArg S.error hs).trans (if_pos ‹_›).symm⟩
  · exact ⟨rfl, he.trans (if_neg ‹_›).symm⟩

/-! ## What a limit has counted -/

namespace Scanner

variable {S : Scanner}

theorem count_attempt {α : Type} {act : Counted S → Token → Outcome α (Counted S)}
    (hact : ∀ b t, (act b t).state.count = b.count + (act b t).answer.isFound.toNat)
    (s : Guarded (Counted S)) (t : Token) :
    (s.attempt t act).state.body.count =
      s.body.count + (s.attempt t act).answer.isFound.toNat := by
  rcases s.attempt_cases t act with ⟨⟨e, ha⟩, hbody⟩ | ⟨t', ha, hbody⟩
  · rw [ha, hbody]
    rfl
  · rw [ha, hbody, hact]

def counted {n : Nat} (s : (S.limit n).device.State) : Nat :=
  Counted.count (S := S) s.body

/-- What a limit counts on a call is what the call finds. -/
theorem counted_call {n : Nat} (s : (S.limit n).device.State) (c : Call Unit) :
    counted ((S.limit n).device.call s c).state =
      counted s + ((S.limit n).device.call s c).found.toNat := by
  have hcount {α : Type} (b : Counted S) (o : Outcome α S.State) :
      (if o.answer.isFound then b.count + 1 else b.count) =
        b.count + o.answer.isFound.toNat := by
    cases o.answer.isFound <;> rfl
  cases c with
  | advance _ t =>
      show counted ((S.limit n).next s t).state =
        counted s + ((S.limit n).next s t).answer.isFound.toNat
      unfold Scanner.next
      split
      · exact count_attempt (fun b t => hcount b (S.next b.source t)) s t
      · rfl
  | nextPath t =>
      show counted ((S.limit n).nextPath s t).state =
        counted s + ((S.limit n).nextPath s t).answer.isFound.toNat
      unfold Cursor.nextPath
      split
      · exact count_attempt (fun b t => hcount b (S.nextPath b.source t)) s t
      · rfl
  | close => rfl

theorem counted_after {n : Nat} (calls : List (Call Unit)) (s : (S.limit n).device.State) :
    counted ((S.limit n).device.after s calls) =
      counted s + (S.limit n).device.finds s calls := by
  induction calls generalizing s with
  | nil => rfl
  | cons c calls ih =>
      rw [Device.after_cons, ih, counted_call, Device.finds, Nat.add_assoc]

/-- A limit tries a pull unless it has found as many rows as it lets through. -/
theorem canPull_limit {n : Nat} (past : List (Call Unit)) :
    let L := S.limit n
    L.canPull (L.release (L.device.after L.fresh past).body) =
      !decide (0 < n ∧ n ≤ L.device.finds L.fresh past) := by
  intro L
  have hcounted : counted (L.device.after L.fresh past) = 0 + L.device.finds L.fresh past :=
    counted_after past L.fresh
  rw [← decide_not, ← Nat.zero_add (L.device.finds L.fresh past), ← hcounted]
  exact decide_eq_decide.2 (by
    show n = 0 ∨ counted (L.device.after L.fresh past) < n ↔ _
    omega)

end Scanner

/-! ## Plans -/

namespace Plan

/-- After this many finds the scanner of the plan is a limit that is used up. -/
def usedUp : Plan → Nat → Bool
  | .limit _ n, found => 0 < n ∧ n ≤ found
  | _, _ => false

/-- A scanner tries every pull unless it is a limit that is used up. -/
theorem canPull_after (store : QuadStore) (p : Plan) (past : List (Call Unit)) :
    let S := (p.roles store).scanner
    S.canPull (S.release (S.device.after S.fresh past).body) =
      !p.usedUp (S.device.finds S.fresh past) := by
  intro S
  cases p with
  | limit p n => exact Scanner.canPull_limit past
  | and operands primary =>
      have hpull (Rs : List Roles) (i : Nat) : ∀ b, (Roles.join Rs i).scanner.canPull b = true := by
        unfold Roles.join
        split <;> exact fun _ => rfl
      exact hpull _ _ _
  | _ => rfl

/-- Use after the end. Whatever was called before on a scanner or an index of a plan, if that left
no error, then the next call after it was closed finds nothing and records that it was closed. Only
a scanner that is a limit, once it has found as many rows as it lets through, records nothing. -/
theorem use_after_close (store : QuadStore) (p : Plan) :
    let scanner := (p.roles store).scanner
    let index := (p.roles store).index
    (∀ past t,
      let s := scanner.device.after scanner.fresh past
      let o := scanner.next (scanner.close s) t
      scanner.error s = none →
      o.answer.isFound = false ∧
        scanner.error o.state =
          if p.usedUp (scanner.device.finds scanner.fresh past) then none else some .closed) ∧
    ∀ past h t,
      let s := index.device.after index.fresh past
      let o := index.contains h (index.close s) t
      index.error s = none → o.answer.isFound = false ∧ index.error o.state = some .closed := by
  intro scanner index
  constructor
  · intro past t s o he
    obtain ⟨ha, herror⟩ := Scanner.next_close (S := scanner) he t
    have hpull : scanner.canPull (scanner.release s.body) =
        !p.usedUp (scanner.device.finds scanner.fresh past) := canPull_after store p past
    refine ⟨ha, herror.trans ?_⟩
    rw [hpull]
    cases p.usedUp (scanner.device.finds scanner.fresh past) <;> rfl
  · intro past h t s o he
    exact Index.contains_close he h t

def firstTwoOfThree : Plan :=
  .limit (.fixed (.ofList [.ofNat 0, .ofNat 1, .ofNat 2])) 2

theorem limit_closed_early :
    let S := (firstTwoOfThree.roles MemoryStore.empty.toStore).scanner
    let s := (S.next S.fresh .never).state
    (S.next S.fresh .never).answer.isFound = true ∧ S.error s = none ∧
      (S.next (S.close s) .never).answer.isFound = false ∧
      S.error (S.next (S.close s) .never).state = some .closed :=
  ⟨rfl, rfl,
    (use_after_close MemoryStore.empty.toStore firstTwoOfThree).1 [.advance () .never] .never rfl⟩

def firstOfTwo : Plan :=
  .limit (.fixed (.ofList [.ofNat 0, .ofNat 1])) 1

/-- A limit that is used up says nothing of being closed. -/
theorem limit_closed_silently :
    let S := (firstOfTwo.roles MemoryStore.empty.toStore).scanner
    let s := (S.next S.fresh .never).state
    S.error s = none ∧ S.error (S.next (S.close s) .never).state = none :=
  ⟨rfl, rfl⟩

end Plan

end GraphQuery
