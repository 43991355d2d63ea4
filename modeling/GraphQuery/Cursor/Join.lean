import GraphQuery.Cursor.Group
import GraphQuery.Cursor.Leaf
import GraphQuery.Tags.Combinations

/-!
# Joins

A cursor that shows the handles several cursors agree on, with every combination of their binding
sets. The sets of the operands are combined in the order in which the operands are declared,
whatever the order in which they are consulted.
-/

namespace GraphQuery

/-- A handle with a combination of binding sets, and the cursors these come from. -/
structure Combining (ρ : Type) where
  sources : ρ
  combos : Combinations
  current : Option Handle

namespace Combining

variable {ρ : Type}

/-- Turns to the next combination. -/
def turn (b : Combining ρ) (t : Token) : Outcome Unit (Combining ρ) :=
  match b.combos.advance with
  | some combos => ⟨.found (), { b with combos }, t⟩
  | none => ⟨.nothing, b, t⟩

theorem turns_end : WellFounded fun (b' b : Combining ρ) => ∃ t, (b.turn t).answer = .found () ∧
    (b.turn t).state = b' := by
  refine Subrelation.wf ?_ (InvImage.wf (fun b => b.combos.remaining) Nat.lt_wfRel.wf)
  rintro _ b ⟨t, hf, rfl⟩
  show Combinations.remaining _ < Combinations.remaining _
  unfold turn at hf ⊢
  split at hf
  · rename_i h
    exact Combinations.remaining_advance h
  · simp at hf

theorem sources_turn (b : Combining ρ) (t : Token) : (b.turn t).state.sources = b.sources := by
  unfold turn
  split <;> rfl

theorem turn_le (d : Descent ρ) (b : Combining ρ) (t : Token) :
    d.le (b.turn t).state.sources b.sources := by
  rw [sources_turn]
  exact d.refl _

end Combining

/-- Shows a handle with the combinations of binding sets from several sources. -/
def Cursor.combining {ρ : Type} (sources : ρ) (close : ρ → ρ) : Cursor where
  Body := Combining ρ
  start := ⟨sources, .empty, none⟩
  shown := Combining.current
  binds b := b.combos.tags
  canTurn b := b.current.isSome
  turn := Combining.turn
  release b := ⟨close b.sources, b.combos, none⟩
  turns_end := Combining.turns_end

/-! ## One operand drives, the others are probed -/

namespace Scanner

/-- A result of the driver that all the others hold. -/
def pullAgreed (S : Scanner) (Is : List Index) (s : S.State × GroupState Is) (t : Token) :
    Outcome Handle (S.State × GroupState Is) :=
  S.sift
    (fun h g t => (GroupState.containsAll Is h (List.range Is.length) g t).mapValue fun _ => h)
    s.1 s.2 t

/-- The binding sets of the driver and of the others, the driver's at its position. -/
def gather (S : Scanner) (Is : List Index) (position : Nat) (s : S.State × GroupState Is)
    (t : Token) : Outcome (List (List Tags)) (S.State × GroupState Is) :=
  (S.alternates s.1 t).complete.andThen
    (fun own r t =>
      ((GroupState.alternates Is s.2 t).mapValue fun others =>
        others.insertIdx position own).inState fun g => (r, g))
    fun r => (r, s.2)

/-- The next handle on which the driver and the others agree, with all their binding sets. -/
def pullJoined (S : Scanner) (Is : List Index) (position : Nat)
    (b : Combining (S.State × GroupState Is)) (t : Token) :
    Outcome Handle (Combining (S.State × GroupState Is)) :=
  (S.pullAgreed Is b.sources t).andThen
    (fun h s t =>
      (S.gather Is position s t).andThen
        (fun sets s t => ⟨.found h, ⟨s, .ofSets sets, some h⟩, t⟩)
        fun s => { b with sources := s })
    fun s => { b with sources := s }

theorem gather_le {S : Scanner} {Is : List Index} (position : Nat) (s : S.State × GroupState Is)
    (t : Token) : S.order.le (S.gather Is position s t).state.1 s.1 :=
  Outcome.state_andThen (P := fun r : S.State × GroupState Is => S.order.le r.1 s.1)
    (fun _ _ => S.alternates_le s.1 t) (S.alternates_le s.1 t)

theorem pullJoined_le {S : Scanner} {Is : List Index} (position : Nat)
    (b : Combining (S.State × GroupState Is)) (t : Token) :
    S.order.le (S.pullJoined Is position b t).state.sources.1 b.sources.1 := by
  have hs : S.order.le (S.pullAgreed Is b.sources t).state.1 b.sources.1 := S.sift_le _ _ _ t
  refine Outcome.state_andThen
    (P := fun c : Combining (S.State × GroupState Is) => S.order.le c.sources.1 b.sources.1)
    (fun h _ => ?_) hs
  exact Outcome.state_andThen
    (P := fun c : Combining (S.State × GroupState Is) => S.order.le c.sources.1 b.sources.1)
    (fun _ _ => S.order.trans (gather_le _ _ _) hs) (S.order.trans (gather_le _ _ _) hs)

theorem pullJoined_lt {S : Scanner} {Is : List Index} {position : Nat}
    {b : Combining (S.State × GroupState Is)} {t : Token} {h : Handle}
    (hf : (S.pullJoined Is position b t).answer = .found h) :
    S.order.lt (S.pullJoined Is position b t).state.sources.1 b.sources.1 := by
  unfold pullJoined at hf ⊢
  obtain ⟨a, ha, heq⟩ := Outcome.found_andThen hf
  rw [heq] at hf ⊢
  obtain ⟨sets, _, heq⟩ := Outcome.found_andThen hf
  rw [heq]
  exact S.order.lt_of_le_of_lt (gather_le _ _ _) (Scanner.sift_lt ha)

/-- The handles that the scanner shows and all the indexes hold. `position` is the number of indexes
declared before the scanner. -/
def join (S : Scanner) (position : Nat) (Is : List Index) : Scanner where
  toCursor := .combining (S.fresh, GroupState.fresh Is) fun s =>
    (S.close s.1, GroupState.close Is s.2)
  clear b := { b with current := none }
  canPull _ := true
  pull := S.pullJoined Is position
  descent := S.order.comap fun b : Combining (S.State × GroupState Is) => b.sources.1
  clear_le b := S.order.refl b.sources.1
  turn_le b t := Combining.turn_le (S.order.comap Prod.fst) b t
  pull_le := pullJoined_le position
  pull_lt _ _ _ := pullJoined_lt

end Scanner

/-! ## All operands are probed -/

/-- The positions below `n`, with `first` and the position zero changing places. -/
def probeOrder (n first : Nat) : List Nat :=
  ((List.range n).set 0 first).set first 0

/-- The handles that all the indexes hold. -/
def Index.join (Is : List Index) (first : Nat) : Index where
  toCursor := .combining (GroupState.fresh Is) (GroupState.close Is)
  aim _ b := { b with current := none }
  probe h b t :=
    ((GroupState.containsAll Is h (probeOrder Is.length first) b.sources t).andThen
      (fun _ g t => GroupState.alternates Is g t) id).andThen
      (fun sets g t => ⟨.found (), ⟨g, .ofSets sets, some h⟩, t⟩)
      fun g => { b with sources := g }

/-- What several plans agree on; `primary` drives the scan and is probed first. There is no result
if there is no operand. -/
def Roles.join (Rs : List Roles) (primary : Nat) : Roles :=
  match Rs[primary]? with
  | none => .null
  | some R =>
      ⟨R.scanner.join primary ((Rs.eraseIdx primary).map Roles.index),
        .join (Rs.map Roles.index) primary⟩

end GraphQuery
