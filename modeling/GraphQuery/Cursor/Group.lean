import GraphQuery.Cursor.Basic

/-!
# Groups of indexes

Several indexes that are probed for the same handle, each with its own state. They are told apart by
their position.
-/

namespace GraphQuery

/-- A state for each of the indexes. -/
def GroupState : List Index → Type
  | [] => Unit
  | I :: Is => I.State × GroupState Is

namespace GroupState

def fresh : (Is : List Index) → GroupState Is
  | [] => ()
  | I :: Is => (I.fresh, fresh Is)

def close : (Is : List Index) → GroupState Is → GroupState Is
  | [], _ => ()
  | I :: Is, (s, g) => (I.close s, close Is g)

/-- Probes the index at a position. -/
def containsAt : (Is : List Index) → Nat → Handle → GroupState Is → Token →
    Outcome Unit (GroupState Is)
  | [], _, _, g, t => ⟨.nothing, g, t⟩
  | I :: _, 0, h, (s, g), t => (I.contains h s t).inState fun s => (s, g)
  | _ :: Is, i + 1, h, (s, g), t => (containsAt Is i h g t).inState fun g => (s, g)

/-- Probes the indexes at these positions, in this order, as long as each holds the handle. -/
def containsAll (Is : List Index) (h : Handle) : List Nat → GroupState Is → Token →
    Outcome Unit (GroupState Is)
  | [], g, t => ⟨.found (), g, t⟩
  | i :: order, g, t => (containsAt Is i h g t).andThen (fun _ g t => containsAll Is h order g t) id

/-- All binding sets that each of the indexes shows. -/
def alternates : (Is : List Index) → GroupState Is → Token →
    Outcome (List (List Tags)) (GroupState Is)
  | [], g, t => ⟨.found [], g, t⟩
  | I :: Is, (s, g), t =>
      (I.alternates s t).complete.andThen
        (fun sets s t =>
          ((alternates Is g t).mapValue (sets :: ·)).inState fun g => (s, g))
        fun s => (s, g)

/-- Turns the index at a position to its next binding set. -/
def turnAt : (Is : List Index) → Nat → GroupState Is → Token → Outcome Unit (GroupState Is)
  | [], _, g, t => ⟨.nothing, g, t⟩
  | I :: _, 0, (s, g), t => (I.nextPath s t).inState fun s => (s, g)
  | _ :: Is, i + 1, (s, g), t => (turnAt Is i g t).inState fun g => (s, g)

/-- What the index at a position binds. -/
def tagsAt : (Is : List Index) → Nat → GroupState Is → Tags
  | [], _, _ => .empty
  | I :: _, 0, (s, _) => I.tags s
  | _ :: Is, i + 1, (_, g) => tagsAt Is i g

theorem turns_end : ∀ (Is : List Index) (i : Nat), WellFounded fun g' g =>
    ∃ t, (turnAt Is i g t).answer = .found () ∧ (turnAt Is i g t).state = g'
  | [], _ => ⟨fun _ => ⟨_, fun _ ⟨_, h, _⟩ => by simp [turnAt] at h⟩⟩
  | I :: Is, 0 => by
      refine Subrelation.wf ?_ (InvImage.wf Prod.fst I.paths_end)
      rintro _ ⟨s, g⟩ ⟨t, hf, rfl⟩
      exact ⟨t, hf, rfl⟩
  | I :: Is, i + 1 => by
      refine Subrelation.wf ?_ (InvImage.wf Prod.snd (turns_end Is i))
      rintro _ ⟨s, g⟩ ⟨t, hf, rfl⟩
      exact ⟨t, hf, rfl⟩

end GroupState

end GraphQuery
