import GraphQuery.Cursor.Basic

/-!
# Histories of calls

A consumer moves a cursor, turns it to further binding sets and closes it, in whatever order and as
often as it likes. Every call comes with a token of its own, so any of them may be interrupted. What
the guard alone sees to holds of all cursors: the first error stays, and nothing is found after an
error or after the end.
-/

namespace GraphQuery

/-- A call on a cursor. An index is moved to a handle, a scanner needs no target. -/
inductive Call (γ : Type) where
  | advance (target : γ) (token : Token)
  | nextPath (token : Token)
  | close

/-- Whether a call has found something, and the state that it leaves. -/
structure Response (σ : Type) where
  found : Bool
  state : σ

def Outcome.response {α σ : Type} (o : Outcome α σ) : Response σ :=
  ⟨o.answer.isFound, o.state⟩

namespace Guarded

variable {α β : Type} {s : Guarded β} {act : β → Token → Outcome α β} {e : QueryError}

/-- What a call may come to behind the guard: the guard decides about an attempt, nothing is
attempted, or the guard is shut. -/
inductive Responds (s : Guarded β) : Response (Guarded β) → Prop
  | attempted {α : Type} (b : β) (t : Token) (act : β → Token → Outcome α β) :
      Responds s (attempt ⟨s.status, b⟩ t act).response
  | declined : Responds s ⟨false, s⟩
  | closed (b : β) : Responds s ⟨false, ⟨{ s.status with closed := true }, b⟩⟩

theorem error_attempt (he : s.status.error = some e) (t : Token) :
    (s.attempt t act).state.status.error = some e := by
  unfold attempt
  split
  · simp [Status.fail, he]
  · dsimp only
    split <;> simp [Status.fail, he]

theorem closed_attempt (s : Guarded β) (t : Token) (act : β → Token → Outcome α β) :
    (s.attempt t act).state.status.closed = s.status.closed := by
  unfold attempt
  split
  · rfl
  · dsimp only
    split <;> rfl

/-- An attempt does not get past the guard, or comes to what the act comes to. -/
theorem attempt_cases (s : Guarded β) (t : Token) (act : β → Token → Outcome α β) :
    ((∃ e, (s.attempt t act).answer = .failed e) ∧ (s.attempt t act).state.body = s.body) ∨
      ∃ t', (s.attempt t act).answer = (act s.body t').answer ∧
        (s.attempt t act).state.body = (act s.body t').state := by
  unfold attempt
  split
  · exact .inl ⟨⟨_, rfl⟩, rfl⟩
  · rename_i t' _
    refine .inr ⟨t', ?_⟩
    dsimp only
    split <;> simp [*]

theorem error_of_failed {t : Token} (h : (s.attempt t act).answer = .failed e) :
    (s.attempt t act).state.status.error = some e := by
  unfold attempt at h ⊢
  split at h
  · rename_i e' t' hrefused
    obtain rfl : e' = e := by simpa using h
    cases he : s.status.error with
    | none => simp [Status.fail, he]
    | some e'' => simp_all [Status.refuse?, Status.fail]
  · rename_i t' hlet
    have he : s.status.error = none := by
      cases he : s.status.error with
      | none => rfl
      | some e' => simp [Status.refuse?, he] at hlet
    cases ha : (act s.body t').answer <;> simp_all [Status.fail]

theorem error_attempt_of_none (he : s.status.error = none) (t : Token)
    (act : β → Token → Outcome α β) :
    (s.attempt t act).state.status.error = (s.attempt t act).answer.error? := by
  unfold attempt
  split
  · simp [Status.fail, he, Answer.error?]
  · dsimp only
    split <;> simp_all [Status.fail, Answer.error?]

theorem attempt_of_error (he : s.status.error = some e) (t : Token) :
    (s.attempt t act).answer = .failed e := by
  simp [attempt, Status.refuse?, he]

theorem attempt_of_closed (he : s.status.error = none) (hc : s.status.closed = true) (t : Token)
    (act : β → Token → Outcome α β) :
    (s.attempt t act).answer = .failed .closed ∧
      (s.attempt t act).state = ⟨⟨some .closed, true⟩, s.body⟩ := by
  simp [attempt, Status.refuse?, Status.fail, he, hc]

def Stuck (s : Guarded β) : Prop :=
  s.status.error.isSome ∨ s.status.closed = true

theorem not_found_of_stuck (hs : s.Stuck) (t : Token) :
    (s.attempt t act).answer.isFound = false := by
  cases he : s.status.error with
  | some e => rw [attempt_of_error he]; rfl
  | none =>
      rcases hs with hs | hs
      · simp [he] at hs
      · rw [(attempt_of_closed he hs t act).1]; rfl

namespace Responds

variable {r : Response (Guarded β)}

theorem error (hr : s.Responds r) (he : s.status.error = some e) :
    r.state.status.error = some e := by
  cases hr with
  | attempted b t act => exact error_attempt (s := ⟨s.status, b⟩) he t
  | declined => exact he
  | closed b => exact he

theorem stuck (hr : s.Responds r) (hs : s.Stuck) : r.state.Stuck ∧ r.found = false := by
  cases hr with
  | attempted b t act =>
      refine ⟨?_, not_found_of_stuck (s := ⟨s.status, b⟩) hs t⟩
      refine hs.imp (fun herror => ?_) fun hclosed => ?_
      · obtain ⟨e, he⟩ := Option.isSome_iff_exists.1 herror
        exact Option.isSome_iff_exists.2 ⟨e, error_attempt (s := ⟨s.status, b⟩) he t⟩
      · exact (closed_attempt ⟨s.status, b⟩ t act).trans hclosed
  | declined => exact ⟨hs, rfl⟩
  | closed b => exact ⟨.inr rfl, rfl⟩

end Responds

end Guarded

/-- A cursor as its consumers see it: it starts fresh and answers calls from behind its guard. -/
structure Device (γ : Type) where
  Body : Type
  fresh : Guarded Body
  call : Guarded Body → Call γ → Response (Guarded Body)
  responds : ∀ (s : Guarded Body) c, s.Responds (call s c)
  shuts : ∀ s : Guarded Body, (call s .close).state.status.closed = true

namespace Device

variable {γ : Type} (D : Device γ)

abbrev State : Type :=
  Guarded D.Body

def after (s : D.State) (calls : List (Call γ)) : D.State :=
  calls.foldl (fun s c => (D.call s c).state) s

def finds (s : D.State) : List (Call γ) → Nat
  | [] => 0
  | c :: calls => (D.call s c).found.toNat + finds (D.call s c).state calls

theorem after_cons (s : D.State) (c : Call γ) (calls : List (Call γ)) :
    D.after s (c :: calls) = D.after (D.call s c).state calls :=
  rfl

theorem after_append (s : D.State) (past future : List (Call γ)) :
    D.after s (past ++ future) = D.after (D.after s past) future :=
  List.foldl_append

/-- The first error stays, and nothing is found after an error or after the end. -/
structure Absorbing : Prop where
  error : ∀ past future e, (D.after D.fresh past).status.error = some e →
    (D.after D.fresh (past ++ future)).status.error = some e
  stuck : ∀ past future c, (D.after D.fresh past).status.error.isSome ∨ .close ∈ past →
    (D.call (D.after D.fresh (past ++ future)) c).found = false

variable {D} {s : D.State}

theorem error_after {e : QueryError} (he : s.status.error = some e) (calls : List (Call γ)) :
    (D.after s calls).status.error = some e := by
  induction calls generalizing s with
  | nil => exact he
  | cons c calls ih => exact ih ((D.responds s c).error he)

theorem stuck_after (hs : s.Stuck) (calls : List (Call γ)) : (D.after s calls).Stuck := by
  induction calls generalizing s with
  | nil => exact hs
  | cons c calls ih => exact ih ((D.responds s c).stuck hs).1

/-- After a call that closes the cursor, the guard is shut for good. -/
theorem stuck_after_close {calls : List (Call γ)} (hc : .close ∈ calls) (s : D.State) :
    (D.after s calls).Stuck := by
  obtain ⟨before, later, rfl⟩ := List.append_of_mem hc
  rw [after_append, after_cons]
  exact stuck_after (.inr (D.shuts _)) later

theorem absorbing (D : Device γ) : D.Absorbing where
  error past future e he := by
    rw [after_append]
    exact error_after he future
  stuck past future c hpast := by
    have hstuck : (D.after D.fresh past).Stuck :=
      hpast.elim .inl fun hc => stuck_after_close hc D.fresh
    rw [after_append]
    exact ((D.responds _ c).stuck (stuck_after hstuck future)).2

end Device

/-- A turn is not tried, does not get past the guard, or comes to what the body's turn comes to. -/
theorem Cursor.nextPath_cases (C : Cursor) (s : C.State) (t : Token) :
    (C.canTurn s.body = false ∧ C.nextPath s t = ⟨.nothing, s, t⟩) ∨
      (∃ e, (C.nextPath s t).answer = .failed e ∧ (C.nextPath s t).state.body = s.body) ∨
      ∃ t', C.canTurn s.body = true ∧ (C.nextPath s t).answer = (C.turn s.body t').answer ∧
        (C.nextPath s t).state.body = (C.turn s.body t').state := by
  unfold nextPath
  cases hcan : C.canTurn s.body with
  | false => exact .inl ⟨rfl, rfl⟩
  | true =>
      rcases s.attempt_cases t C.turn with ⟨⟨e, ha⟩, hbody⟩ | ⟨t', ha, hbody⟩
      · exact .inr (.inl ⟨e, ha, hbody⟩)
      · exact .inr (.inr ⟨t', rfl, ha, hbody⟩)

/-- A pull is not tried, does not get past the guard, or comes to what the body's pull comes to. -/
theorem Scanner.next_cases (S : Scanner) (s : S.State) (t : Token) :
    (S.canPull s.body = false ∧ S.next s t = ⟨.nothing, s, t⟩) ∨
      (∃ e, (S.next s t).answer = .failed e ∧ (S.next s t).state.body = S.clear s.body) ∨
      ∃ t', S.canPull s.body = true ∧
        (S.next s t).answer = (S.pull (S.clear s.body) t').answer ∧
        (S.next s t).state.body = (S.pull (S.clear s.body) t').state := by
  unfold next
  cases hcan : S.canPull s.body with
  | false => exact .inl ⟨rfl, rfl⟩
  | true =>
      rcases Guarded.attempt_cases ⟨s.status, S.clear s.body⟩ t S.pull with
        ⟨⟨e, ha⟩, hbody⟩ | ⟨t', ha, hbody⟩
      · exact .inr (.inl ⟨e, ha, hbody⟩)
      · exact .inr (.inr ⟨t', rfl, ha, hbody⟩)

/-! ## The error on record -/

theorem Cursor.error_nextPath (C : Cursor) {s : C.State} (he : C.error s = none) (t : Token) :
    C.error (C.nextPath s t).state = (C.nextPath s t).answer.error? := by
  unfold nextPath
  split
  · exact Guarded.error_attempt_of_none he t C.turn
  · exact he

theorem Scanner.error_next (S : Scanner) {s : S.State} (he : S.error s = none) (t : Token) :
    S.error (S.next s t).state = (S.next s t).answer.error? := by
  unfold next
  split
  · exact Guarded.error_attempt_of_none (s := ⟨s.status, S.clear s.body⟩) he t S.pull
  · exact he

theorem Index.error_contains (I : Index) {s : I.State} (he : I.error s = none) (h : Handle)
    (t : Token) : I.error (I.contains h s t).state = (I.contains h s t).answer.error? :=
  Guarded.error_attempt_of_none (s := ⟨s.status, I.aim h s.body⟩) he t (I.probe h)

/-! ## Both kinds of cursors -/

/-- A call that a cursor of either kind answers by an attempt or not at all. -/
theorem Cursor.responds_nextPath (C : Cursor) (s : C.State) (t : Token) :
    s.Responds (C.nextPath s t).response := by
  unfold Cursor.nextPath
  split
  · exact .attempted s.body t C.turn
  · exact .declined

def Scanner.device (S : Scanner) : Device Unit where
  Body := S.Body
  fresh := S.fresh
  call s
    | .advance _ t => (S.next s t).response
    | .nextPath t => (S.nextPath s t).response
    | .close => ⟨false, S.close s⟩
  responds s
    | .advance _ t => by
        dsimp only [Scanner.next]
        split
        · exact .attempted _ t S.pull
        · exact .declined
    | .nextPath t => S.responds_nextPath s t
    | .close => .closed _
  shuts _ := rfl

def Index.device (I : Index) : Device Handle where
  Body := I.Body
  fresh := I.fresh
  call s
    | .advance h t => (I.contains h s t).response
    | .nextPath t => (I.nextPath s t).response
    | .close => ⟨false, I.close s⟩
  responds s
    | .advance h t => .attempted _ t (I.probe h)
    | .nextPath t => I.responds_nextPath s t
    | .close => .closed _
  shuts _ := rfl

end GraphQuery
