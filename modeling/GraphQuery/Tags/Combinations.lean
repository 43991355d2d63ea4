import GraphQuery.Tags

/-!
# Combinations of binding sets

Several lists of binding sets, one position in each. `advance` turns the last position first, as
the wheels of a counter turn, and reports when every wheel is at its end.
-/

namespace GraphQuery

/-- A list of binding sets and a position in it. -/
structure Wheel where
  sets : List Tags
  position : Nat
deriving DecidableEq

/-- The combination that the wheels show. -/
structure Combinations where
  wheels : List Wheel
deriving DecidableEq

namespace Wheel

def current? (w : Wheel) : Option Tags :=
  w.sets[w.position]?

/-- One position on, if there is one. -/
def turn? (w : Wheel) : Option Wheel :=
  if w.position + 1 < w.sets.length then some { w with position := w.position + 1 } else none

def reset (w : Wheel) : Wheel :=
  { w with position := 0 }

/-- How often the wheel can still turn. -/
def remaining (w : Wheel) : Nat :=
  w.sets.length - 1 - w.position

theorem remaining_turn? {w v : Wheel} (h : w.turn? = some v) :
    v.remaining + 1 = w.remaining ∧ v.sets = w.sets := by
  unfold turn? at h
  split at h
  · obtain rfl := Option.some.inj h
    simp only [remaining, and_true]
    omega
  · contradiction

end Wheel

namespace Combinations

def empty : Combinations :=
  ⟨[]⟩

/-- The first combination of these lists. -/
def ofSets (sets : List (List Tags)) : Combinations :=
  ⟨sets.map fun s => ⟨s, 0⟩⟩

/-- The bindings of the combination; those of later lists win. -/
def tags (c : Combinations) : Tags :=
  c.wheels.foldl (fun t w => (w.current?.map t.override).getD t) .empty

/-- The next combination of the wheels, the last one turning fastest. -/
def advanceWheels : List Wheel → Option (List Wheel)
  | [] => none
  | w :: ws =>
      match advanceWheels ws with
      | some ws' => some (w :: ws')
      | none => w.turn?.map (· :: ws.map Wheel.reset)

def advance (c : Combinations) : Option Combinations :=
  (advanceWheels c.wheels).map (⟨·⟩)

/-! ## The counter runs out -/

/-- How many settings wheels of these sizes have. -/
def settings : List Wheel → Nat
  | [] => 1
  | w :: ws => max w.sets.length 1 * settings ws

/-- How many settings come after the present one. -/
def remainingWheels : List Wheel → Nat
  | [] => 0
  | w :: ws => w.remaining * settings ws + remainingWheels ws

def remaining (c : Combinations) : Nat :=
  remainingWheels c.wheels

theorem settings_pos : ∀ ws : List Wheel, 0 < settings ws
  | [] => Nat.one_pos
  | w :: ws => Nat.mul_pos (by omega) (settings_pos ws)

theorem settings_map_reset : ∀ ws : List Wheel, settings (ws.map Wheel.reset) = settings ws
  | [] => rfl
  | w :: ws => by simp [settings, settings_map_reset ws, Wheel.reset]

theorem settings_advanceWheels : ∀ {ws vs : List Wheel}, advanceWheels ws = some vs →
    settings vs = settings ws
  | [], _, h => by simp [advanceWheels] at h
  | w :: ws, vs, h => by
      unfold advanceWheels at h
      split at h
      · rename_i ws' hws
        obtain rfl := Option.some.inj h
        simp [settings, settings_advanceWheels hws]
      · obtain ⟨v, hv, rfl⟩ := Option.map_eq_some_iff.1 h
        simp [settings, settings_map_reset, (Wheel.remaining_turn? hv).2]

/-- A reset counter has one setting fewer to go than there are settings. -/
theorem remainingWheels_map_reset : ∀ ws : List Wheel,
    remainingWheels (ws.map Wheel.reset) + 1 = settings ws
  | [] => rfl
  | w :: ws => by
      have ih := remainingWheels_map_reset ws
      have hp := settings_pos ws
      simp only [List.map_cons, remainingWheels, settings, settings_map_reset, Wheel.reset,
        Wheel.remaining, Nat.sub_zero]
      have : max w.sets.length 1 = w.sets.length - 1 + 1 := by omega
      rw [this, Nat.add_one_mul]
      omega

theorem remainingWheels_advanceWheels : ∀ {ws vs : List Wheel}, advanceWheels ws = some vs →
    remainingWheels vs < remainingWheels ws
  | [], _, h => by simp [advanceWheels] at h
  | w :: ws, vs, h => by
      unfold advanceWheels at h
      split at h
      · rename_i ws' hws
        obtain rfl := Option.some.inj h
        simp only [remainingWheels, settings_advanceWheels hws]
        exact Nat.add_lt_add_left (remainingWheels_advanceWheels hws) _
      · obtain ⟨v, hv, rfl⟩ := Option.map_eq_some_iff.1 h
        have hr := remainingWheels_map_reset ws
        simp only [remainingWheels, settings_map_reset]
        rw [← (Wheel.remaining_turn? hv).1, Nat.add_one_mul]
        omega

theorem remaining_advance {c d : Combinations} (h : c.advance = some d) :
    d.remaining < c.remaining := by
  obtain ⟨vs, hvs, rfl⟩ := Option.map_eq_some_iff.1 h
  exact remainingWheels_advanceWheels hvs

/-! ## The whole product -/

/-- The bindings of this combination and all that come after it. -/
def remainingTags (c : Combinations) : List Tags :=
  match _h : c.advance with
  | none => [c.tags]
  | some d => c.tags :: remainingTags d
termination_by c.remaining
decreasing_by exact remaining_advance _h

/-- The bindings of all combinations of these lists. -/
def all (sets : List (List Tags)) : List Tags :=
  (ofSets sets).remainingTags

end Combinations

end GraphQuery
