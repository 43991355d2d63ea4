import GraphQuery.Cursor.Guard

/-!
# Cursors

A cursor shows a handle and a binding set, and can turn to further binding sets for the same handle.
A scanner is a cursor that moves from one handle to the next; an index is one that moves to a given
handle if that is a result. Each is described by what its body does behind the guard.
-/

namespace GraphQuery

/-- What scanners and indexes have in common. -/
structure Cursor where
  Body : Type
  start : Body
  /-- The handle shown. -/
  shown : Body → Option Handle
  /-- The binding set shown. -/
  binds : Body → Tags
  /-- Whether a turn is tried at all. -/
  canTurn : Body → Bool
  /-- Turns to the next binding set for the handle shown. -/
  turn : Body → Token → Outcome Unit Body
  /-- Lets go of what the cursor holds. -/
  release : Body → Body
  /-- Turns come to an end. -/
  turns_end : WellFounded fun b' b => ∃ t, (turn b t).answer = .found () ∧ (turn b t).state = b'

namespace Cursor

/-- A body behind its guard. -/
abbrev State (C : Cursor) : Type :=
  Guarded C.Body

def fresh (C : Cursor) : C.State :=
  ⟨{}, C.start⟩

def result (C : Cursor) (s : C.State) : Option Handle :=
  C.shown s.body

def tags (C : Cursor) (s : C.State) : Tags :=
  C.binds s.body

def error (C : Cursor) (s : C.State) : Option QueryError :=
  s.status.error

def close (C : Cursor) (s : C.State) : C.State :=
  ⟨{ s.status with closed := true }, C.release s.body⟩

/-- Moves to another binding set for the same handle. -/
def nextPath (C : Cursor) (s : C.State) (t : Token) : Outcome Unit C.State :=
  if C.canTurn s.body then s.attempt t C.turn else ⟨.nothing, s, t⟩

theorem paths_end (C : Cursor) :
    WellFounded fun s' s => ∃ t, (C.nextPath s t).answer = .found () ∧
      (C.nextPath s t).state = s' := by
  refine Subrelation.wf ?_ (InvImage.wf Guarded.body C.turns_end)
  rintro s' s ⟨t, hf, rfl⟩
  unfold nextPath at hf ⊢
  split at hf
  · rw [if_pos (by assumption)]
    exact ⟨_, (Guarded.answer_attempt hf).1, (Guarded.answer_attempt hf).2.symm⟩
  · simp at hf

/-- The binding sets from the one shown to the last. -/
def alternates (C : Cursor) (s : C.State) (t : Token) : Run Tags C.State :=
  let o := C.nextPath s t
  match _h : o.answer with
  | .found _ =>
      let r := C.alternates o.state o.token
      { r with items := C.tags s :: r.items }
  | .nothing => ⟨[C.tags s], none, o.state, o.token⟩
  | .failed e => ⟨[C.tags s], some e, o.state, o.token⟩
termination_by C.paths_end.wrap s
decreasing_by exact ⟨t, _h, rfl⟩

end Cursor

/-- A cursor over results in sequence. -/
structure Scanner extends Cursor where
  /-- What a pull forgets even if it is refused. -/
  clear : Body → Body
  /-- Whether a pull is tried at all. -/
  canPull : Body → Bool
  /-- Moves to the next result. -/
  pull : Body → Token → Outcome Handle Body
  /-- The order in which finds go down. -/
  descent : Descent Body
  clear_le : ∀ b, descent.le (clear b) b
  turn_le : ∀ b t, descent.le (turn b t).state b
  pull_le : ∀ b t, descent.le (pull b t).state b
  pull_lt : ∀ b t h, (pull b t).answer = .found h → descent.lt (pull b t).state b

namespace Scanner

abbrev State (S : Scanner) : Type :=
  S.toCursor.State

/-- Moves to the next result. -/
def next (S : Scanner) (s : S.State) (t : Token) : Outcome Handle S.State :=
  if S.canPull s.body then ({ s with body := S.clear s.body } : S.State).attempt t S.pull
  else ⟨.nothing, s, t⟩

/-- The descent of guarded states. -/
def order (S : Scanner) : Descent S.State :=
  S.descent.comap Guarded.body

theorem next_le (S : Scanner) (s : S.State) (t : Token) : S.order.le (S.next s t).state s := by
  unfold next
  split
  · exact S.descent.trans (Guarded.attempt_le S.descent S.pull_le _ t) (S.clear_le _)
  · exact S.order.refl _

theorem next_lt {S : Scanner} {s : S.State} {t : Token} {h : Handle}
    (hf : (S.next s t).answer = .found h) : S.order.lt (S.next s t).state s := by
  unfold next at hf ⊢
  split at hf
  · rw [if_pos (by assumption)]
    exact S.descent.lt_of_lt_of_le (Guarded.attempt_lt S.descent S.pull_lt hf) (S.clear_le _)
  · simp at hf

theorem nextPath_le (S : Scanner) (s : S.State) (t : Token) :
    S.order.le (S.nextPath s t).state s := by
  unfold Cursor.nextPath
  split
  · exact Guarded.attempt_le S.descent S.turn_le _ t
  · exact S.order.refl _

theorem alternates_le (S : Scanner) (s : S.State) (t : Token) :
    S.order.le (S.alternates s t).state s := by
  fun_induction Cursor.alternates S.toCursor s t with
  | case1 s t o _ h r ih => exact S.order.trans ih (S.nextPath_le s t)
  | case2 s t => exact S.nextPath_le s t
  | case3 s t => exact S.nextPath_le s t

/-- Every result from here on with all its binding sets, in order. A result that `vet` objects to
ends the run with that error before its binding sets are asked for. -/
def drain (S : Scanner) (vet : Handle → Option QueryError) (s : S.State) (t : Token) :
    Run Row S.State :=
  let o := S.next s t
  match _h : o.answer with
  | .nothing => ⟨[], none, o.state, o.token⟩
  | .failed e => ⟨[], some e, o.state, o.token⟩
  | .found h =>
      match vet h with
      | some e => ⟨[], some e, o.state, o.token⟩
      | none =>
          let a := S.alternates o.state o.token
          match a.error with
          | some e => ⟨[⟨h, a.items⟩], some e, a.state, a.token⟩
          | none =>
              let r := S.drain vet a.state a.token
              { r with items := ⟨h, a.items⟩ :: r.items }
termination_by S.order.wf.wrap s
decreasing_by exact S.order.lt_of_le_of_lt (S.alternates_le _ _) (next_lt _h)

/-- Results are pulled until the judge finds something in one. The judge keeps a state of its own;
every result in which it finds nothing is followed by a check of the token. -/
def sift {α τ : Type} (S : Scanner) (judge : Handle → τ → Token → Outcome α τ) (s : S.State)
    (x : τ) (t : Token) : Outcome α (S.State × τ) :=
  let o := S.next s t
  match _h : o.answer with
  | .nothing => ⟨.nothing, (o.state, x), o.token⟩
  | .failed e => ⟨.failed e, (o.state, x), o.token⟩
  | .found h =>
      let v := judge h x o.token
      match v.answer with
      | .found a => ⟨.found a, (o.state, v.state), v.token⟩
      | .failed e => ⟨.failed e, (o.state, v.state), v.token⟩
      | .nothing =>
          match v.token.check with
          | (some e, t) => ⟨.failed e, (o.state, v.state), t⟩
          | (none, t) => S.sift judge o.state v.state t
termination_by S.order.wf.wrap s
decreasing_by exact next_lt _h

theorem sift_le {α τ : Type} (S : Scanner) (judge : Handle → τ → Token → Outcome α τ)
    (s : S.State) (x : τ) (t : Token) : S.order.le (S.sift judge s x t).state.1 s := by
  fun_induction Scanner.sift S judge s x t with
  | case6 _ _ _ _ _ _ _ _ _ _ ih => exact S.order.trans ih (S.next_le _ _)
  | _ => exact S.next_le _ _

theorem sift_lt {α τ : Type} {S : Scanner} {judge : Handle → τ → Token → Outcome α τ}
    {s : S.State} {x : τ} {t : Token} {a : α}
    (hf : (S.sift judge s x t).answer = .found a) :
    S.order.lt (S.sift judge s x t).state.1 s := by
  fun_induction Scanner.sift S judge s x t with
  | case3 _ _ _ _ _ ho => exact next_lt ho
  | case6 _ _ _ _ _ _ _ _ _ _ ih => exact S.order.lt_of_lt_of_le (ih hf) (S.next_le _ _)
  | _ => simp at hf

end Scanner

/-- A cursor that answers whether a handle is a result. -/
structure Index extends Cursor where
  /-- What a probe for a handle changes even if it is refused. -/
  aim : Handle → Body → Body
  /-- Moves to the handle if it is a result. -/
  probe : Handle → Body → Token → Outcome Unit Body

namespace Index

abbrev State (I : Index) : Type :=
  I.toCursor.State

/-- Moves to the handle if it is a result. -/
def contains (I : Index) (h : Handle) (s : I.State) (t : Token) : Outcome Unit I.State :=
  ({ s with body := I.aim h s.body } : I.State).attempt t (I.probe h)

end Index

/-- The two ways of consuming a plan. -/
structure Roles where
  scanner : Scanner
  index : Index

end GraphQuery
