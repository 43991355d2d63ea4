import GraphQuery.Tags
import GraphQuery.Token

/-!
# Answers

A call on a cursor finds something, finds nothing, or fails; it leaves a new state and the token
with the checks that the call has spent. A run of calls collects items until it ends or fails.
-/

namespace GraphQuery

inductive Answer (α : Type) where
  | found (value : α)
  | nothing
  | failed (error : QueryError)
deriving DecidableEq, Repr

namespace Answer

def isFound {α : Type} : Answer α → Bool
  | .found _ => true
  | _ => false

def value? {α : Type} : Answer α → Option α
  | .found a => some a
  | _ => none

def error? {α : Type} : Answer α → Option QueryError
  | .failed e => some e
  | _ => none

def map {α β : Type} (f : α → β) : Answer α → Answer β
  | .found a => .found (f a)
  | .nothing => .nothing
  | .failed e => .failed e

end Answer

/-- What a call answers and what it leaves behind. -/
structure Outcome (α σ : Type) where
  answer : Answer α
  state : σ
  token : Token

namespace Outcome

/-- The same answer in a larger state. -/
def inState {α σ τ : Type} (o : Outcome α σ) (f : σ → τ) : Outcome α τ :=
  ⟨o.answer, f o.state, o.token⟩

/-- The same call with another value found. -/
def mapValue {α β σ : Type} (o : Outcome α σ) (f : α → β) : Outcome β σ :=
  ⟨o.answer.map f, o.state, o.token⟩

/-- Goes on from what was found; any other answer stands, in the state that `stay` makes. -/
def andThen {α β σ τ : Type} (o : Outcome α σ) (go : α → σ → Token → Outcome β τ)
    (stay : σ → τ) : Outcome β τ :=
  match o.answer with
  | .found a => go a o.state o.token
  | .nothing => ⟨.nothing, stay o.state, o.token⟩
  | .failed e => ⟨.failed e, stay o.state, o.token⟩

/-- What holds of the states on both ways on holds of the state in the end. -/
theorem state_andThen {α β σ τ : Type} {P : τ → Prop} {o : Outcome α σ}
    {go : α → σ → Token → Outcome β τ} {stay : σ → τ}
    (hgo : ∀ a, o.answer = .found a → P (go a o.state o.token).state) (hstay : P (stay o.state)) :
    P (o.andThen go stay).state := by
  unfold andThen
  split
  · exact hgo _ (by assumption)
  · exact hstay
  · exact hstay

/-- What is found in the end was found from a first find. -/
theorem found_andThen {α β σ τ : Type} {o : Outcome α σ} {go : α → σ → Token → Outcome β τ}
    {stay : σ → τ} {b : β} (h : (o.andThen go stay).answer = .found b) :
    ∃ a, o.answer = .found a ∧ o.andThen go stay = go a o.state o.token := by
  unfold andThen at h ⊢
  split at h
  · rename_i a ha
    exact ⟨a, ha, by simp⟩
  · simp at h
  · simp at h

end Outcome

/-- Items collected until the source ended or failed. -/
structure Run (α σ : Type) where
  items : List α
  error : Option QueryError
  state : σ
  token : Token

/-- The items, unless the run failed. -/
def Run.complete {α σ : Type} (r : Run α σ) : Outcome (List α) σ :=
  ⟨match r.error with
    | some e => .failed e
    | none => .found r.items, r.state, r.token⟩

/-- A result of a plan: a handle and its binding sets, the alternates of each other. -/
structure Row where
  handle : Handle
  sets : List Tags
deriving DecidableEq

end GraphQuery
