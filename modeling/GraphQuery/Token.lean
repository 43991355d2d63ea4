import GraphQuery.Error

/-!
# Interruption

Evaluation consults a token before every piece of work. The token tells in advance at which of
these checks a cancellation or a deadline will be seen, so an evaluation is a function of the
token it starts with. What a check has once reported, every later check reports, unless a
cancellation overtakes a deadline.
-/

namespace GraphQuery

/-- How many checks will pass before the cancellation, and before the deadline, is seen; `none` for
one that never comes. -/
structure Token where
  cancelAfter : Option Nat := none
  expireAfter : Option Nat := none
deriving DecidableEq, Repr

namespace Token

/-- The token that never trips. -/
def never : Token :=
  {}

def cancelled : Token :=
  { cancelAfter := some 0 }

def expired : Token :=
  { expireAfter := some 0 }

/-- From now on every check sees the cancellation. -/
def cancel (t : Token) : Token :=
  { t with cancelAfter := some 0 }

/-- Trips at this deadline too, if it comes before the present one. -/
def withDeadline (t : Token) (checks : Nat) : Token :=
  { t with expireAfter := some ((t.expireAfter.map (min checks)).getD checks) }

/-- What the next check reports; a cancellation comes before a deadline. -/
def trip? (t : Token) : Option QueryError :=
  if t.cancelAfter = some 0 then some .cancelled
  else if t.expireAfter = some 0 then some .deadlineExceeded
  else none

/-- The token after a check. -/
def spent (t : Token) : Token :=
  ⟨t.cancelAfter.map (· - 1), t.expireAfter.map (· - 1)⟩

/-- One check. -/
def check (t : Token) : Option QueryError × Token :=
  (t.trip?, t.spent)

/-- Up to `n` checks, none after one that trips. -/
def checks : Nat → Token → Option QueryError × Token
  | 0, t => (none, t)
  | n + 1, t =>
      match t.check with
      | (some e, t) => (some e, t)
      | (none, t) => checks n t

@[simp] theorem trip?_never : never.trip? = none :=
  rfl

@[simp] theorem spent_never : never.spent = never :=
  rfl

@[simp] theorem check_never : never.check = (none, never) :=
  rfl

@[simp] theorem checks_never : ∀ n, never.checks n = (none, never)
  | 0 => rfl
  | n + 1 => by simp [checks, checks_never n]

end Token

end GraphQuery
