import GraphQuery.Cursor.Descent
import GraphQuery.Cursor.Outcome

/-!
# The guard of a cursor

Every cursor sits behind the same guard. An attempt to advance it is refused once it has failed,
once it is closed, and when the token trips; the first error stays. So no cursor has to look after
its own errors, and what holds of the guard holds of all cursors.
-/

namespace GraphQuery

/-- The first error of a cursor, and whether it is closed. -/
structure Status where
  error : Option QueryError := none
  closed : Bool := false
deriving DecidableEq

/-- The state of a cursor: its status, and the body that does its work. -/
structure Guarded (β : Type) where
  status : Status
  body : β

/-- Why an attempt is refused, if it is. Only a cursor in good standing consults the token. -/
def Status.refuse? (s : Status) (t : Token) : Option QueryError × Token :=
  match s.error with
  | some e => (some e, t)
  | none => if s.closed then (some .closed, t) else t.check

/-- The first error is kept. -/
def Status.fail (s : Status) (e : QueryError) : Status :=
  { s with error := s.error <|> some e }

namespace Guarded

variable {α β : Type}

/-- Lets the body act unless the guard refuses, and records the failure of either. -/
def attempt (s : Guarded β) (t : Token) (act : β → Token → Outcome α β) : Outcome α (Guarded β) :=
  match s.status.refuse? t with
  | (some e, t) => ⟨.failed e, { s with status := s.status.fail e }, t⟩
  | (none, t) =>
      let o := act s.body t
      match o.answer with
      | .failed e => ⟨.failed e, ⟨s.status.fail e, o.state⟩, o.token⟩
      | answer => ⟨answer, ⟨s.status, o.state⟩, o.token⟩

/-- An attempt leaves the body as it was or as the body's act leaves it. -/
theorem body_attempt (s : Guarded β) (t : Token) (act : β → Token → Outcome α β) :
    (s.attempt t act).state.body = s.body ∨
      (s.attempt t act).state.body = (act s.body (s.status.refuse? t).2).state := by
  unfold attempt
  split
  · exact .inl rfl
  · rename_i t' ht
    cases h : (act s.body t').answer <;> simp [h, ht]

/-- What an attempt finds is what the body's act finds. -/
theorem answer_attempt {s : Guarded β} {t : Token} {act : β → Token → Outcome α β} {a : α}
    (h : (s.attempt t act).answer = .found a) :
    (act s.body (s.status.refuse? t).2).answer = .found a ∧
      (s.attempt t act).state.body = (act s.body (s.status.refuse? t).2).state := by
  unfold attempt at h ⊢
  split at h
  · simp at h
  · rename_i t' ht
    cases ha : (act s.body t').answer <;> simp_all

theorem attempt_le (d : Descent β) {act : β → Token → Outcome α β}
    (hact : ∀ b t, d.le (act b t).state b) (s : Guarded β) (t : Token) :
    d.le (s.attempt t act).state.body s.body := by
  rcases s.body_attempt t act with h | h
  · rw [h]
    exact d.refl _
  · rw [h]
    exact hact _ _

theorem attempt_lt (d : Descent β) {act : β → Token → Outcome α β}
    (hact : ∀ b t a, (act b t).answer = .found a → d.lt (act b t).state b)
    {s : Guarded β} {t : Token} {a : α} (h : (s.attempt t act).answer = .found a) :
    d.lt (s.attempt t act).state.body s.body := by
  rw [(answer_attempt h).2]
  exact hact _ _ _ (answer_attempt h).1

end Guarded

end GraphQuery
