import GraphQuery.Cursor.Basic

/-!
# Paging

A scanner that stops after a number of rows, and one that passes over a number of results. A limit
counts every binding set as a row; skipping a result skips all its binding sets.
-/

namespace GraphQuery

/-- A scanner and a count beside it. -/
structure Counted (S : Scanner) where
  source : S.State
  count : Nat

namespace Scanner

/-- At most `n` rows; no bound if `n` is zero. -/
def limit (S : Scanner) (n : Nat) : Scanner where
  Body := Counted S
  start := ⟨S.fresh, 0⟩
  shown b := S.result b.source
  binds b := S.tags b.source
  canTurn b := n = 0 ∨ b.count < n
  turn b t :=
    let o := S.nextPath b.source t
    o.inState fun s => ⟨s, if o.answer.isFound then b.count + 1 else b.count⟩
  release b := { b with source := S.close b.source }
  turns_end := by
    refine Subrelation.wf ?_ (InvImage.wf Counted.source S.paths_end)
    rintro _ b ⟨t, hf, rfl⟩
    exact ⟨t, hf, rfl⟩
  clear := id
  canPull b := n = 0 ∨ b.count < n
  pull b t :=
    let o := S.next b.source t
    o.inState fun s => ⟨s, if o.answer.isFound then b.count + 1 else b.count⟩
  descent := S.order.comap Counted.source
  clear_le b := S.order.refl b.source
  turn_le b t := S.nextPath_le b.source t
  pull_le b t := S.next_le b.source t
  pull_lt _ _ _ := next_lt

/-- Passes over `n` results and then looks for one more; every result passed over is followed by a
check of the token. The count in the state is of those still to be passed over. -/
def advancePast (S : Scanner) : Nat → S.State → Token → Outcome Handle (Counted S)
  | 0, s, t => (S.next s t).inState fun s => ⟨s, 0⟩
  | n + 1, s, t =>
      (S.next s t).andThen
        (fun _ s t =>
          match t.check with
          | (some e, t) => ⟨.failed e, ⟨s, n⟩, t⟩
          | (none, t) => S.advancePast n s t)
        fun s => ⟨s, n + 1⟩

theorem advancePast_le (S : Scanner) : ∀ (n : Nat) (s : S.State) (t : Token),
    S.order.le (S.advancePast n s t).state.source s
  | 0, s, t => S.next_le s t
  | n + 1, s, t => by
      unfold advancePast
      refine Outcome.state_andThen (P := fun c : Counted S => S.order.le c.source s) (fun _ _ => ?_)
        (S.next_le s t)
      split
      · exact S.next_le s t
      · exact S.order.trans (S.advancePast_le n _ _) (S.next_le s t)

theorem advancePast_lt {S : Scanner} : ∀ {n : Nat} {s : S.State} {t : Token} {h : Handle},
    (S.advancePast n s t).answer = .found h → S.order.lt (S.advancePast n s t).state.source s
  | 0, _, _, _, hf => next_lt hf
  | n + 1, s, t, h, hf => by
      unfold advancePast at hf ⊢
      obtain ⟨a, ha, heq⟩ := Outcome.found_andThen hf
      rw [heq] at hf ⊢
      split at hf
      · simp at hf
      · exact S.order.lt_of_lt_of_le (advancePast_lt hf) (S.next_le s t)

/-- All results but the first `n`. -/
def skip (S : Scanner) (n : Nat) : Scanner where
  Body := Counted S
  start := ⟨S.fresh, n⟩
  shown b := S.result b.source
  binds b := S.tags b.source
  canTurn _ := true
  turn b t := (S.nextPath b.source t).inState fun s => { b with source := s }
  release b := { b with source := S.close b.source }
  turns_end := by
    refine Subrelation.wf ?_ (InvImage.wf Counted.source S.paths_end)
    rintro _ b ⟨t, hf, rfl⟩
    exact ⟨t, hf, rfl⟩
  clear := id
  canPull _ := true
  pull b t := S.advancePast b.count b.source t
  descent := S.order.comap Counted.source
  clear_le b := S.order.refl b.source
  turn_le b t := S.nextPath_le b.source t
  pull_le b t := S.advancePast_le b.count b.source t
  pull_lt _ _ _ := advancePast_lt

end Scanner

end GraphQuery
