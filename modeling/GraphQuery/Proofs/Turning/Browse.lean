import GraphQuery.Proofs.Feed.Visit
import GraphQuery.Proofs.Turning.Idle
import GraphQuery.Proofs.Turning.Uniform

/-!
# Turning as often as one likes

A consumer may turn any number of times at a result before it pulls the next one, also past the last
binding set. What it sees of a scanner is read off the feed, and of a feed that does not mind turning
it sees the rows of a full drain, each up to the last binding set that it has turned to.
-/

namespace GraphQuery

namespace Cursor

variable {C : Cursor}

/-- The binding sets that so many turns find, whatever the others come to, and the state after
them. -/
def turning (C : Cursor) : Nat → C.State → List Tags × C.State
  | 0, s => ([], s)
  | n + 1, s =>
      let o := C.nextPath s .never
      let r := C.turning n o.state
      (if o.answer.isFound then C.tags o.state :: r.1 else r.1, r.2)

theorem turning_succ {s s' : C.State} {a : Answer Unit}
    (hn : C.nextPath s .never = ⟨a, s', .never⟩) (n : Nat) :
    C.turning (n + 1) s =
      (if a.isFound then C.tags s' :: (C.turning n s').1 else (C.turning n s').1,
        (C.turning n s').2) := by
  rw [turning, hn]

/-- Turning shows the binding sets offered, as far as it goes, and stops at the last. -/
theorem Offers.turning (hC : C.Idles) {h : Handle} {after : Nat → C.State → Prop}
    {sets : List Tags} {s : C.State} (ho : C.Offers h none after sets s) (he : C.error s = none)
    (n : Nat) : ∃ s', C.turning n s = (sets.tail.take n, s') ∧ after (min n (sets.length - 1)) s' ∧
      C.error s' = none := by
  induction n generalizing s sets after with
  | zero => exact ⟨s, by simp [Cursor.turning], by simpa using ho.start, he⟩
  | succ n ih =>
      cases sets with
      | nil => exact ho.elim
      | cons t sets =>
          cases sets with
          | nil =>
              obtain ⟨hr, ht, ha, s', hn, ha'⟩ := ho
              have hstay : s' = s := by
                have hidle := hC s .never (by rw [hn])
                rwa [hn] at hidle
              subst hstay
              have hlast : C.Offers h none after [t] s' := ⟨hr, ht, ha, _, hn, ha⟩
              obtain ⟨s'', hs, ha'', he'⟩ := ih hlast he
              rw [turning_succ hn, hs]
              exact ⟨s'', by simp [Answer.isFound], by simpa using ha'', he'⟩
          | cons u sets =>
              obtain ⟨-, -, -, s', hn, hu⟩ := ho
              have he' : C.error s' = none := by
                have herror := C.error_nextPath he .never
                rwa [hn] at herror
              obtain ⟨s'', hs, ha, he''⟩ := ih hu he'
              obtain ⟨-, others, hfirst⟩ := hu.shown
              obtain ⟨rfl, rfl⟩ := List.cons.inj hfirst
              rw [turning_succ hn, hs]
              exact ⟨s'', by simp [Answer.isFound], by simpa using ha, he''⟩

end Cursor

/-! ## What is seen of a feed -/

/-- What a consumer sees of a row after so many turns. -/
def Row.upTo (r : Row) (turns : Nat) : Row :=
  ⟨r.handle, r.sets.take (turns + 1)⟩

namespace Feed

def browsed : Feed → (Nat → Nat) → Delivered
  | .done, _ => ⟨[], none⟩
  | .failed e, _ => ⟨[], some e⟩
  | .row h sets rest, turns =>
      let d := (rest (min (turns 0) (sets.length - 1))).browsed fun i => turns (i + 1)
      { d with rows := Row.upTo ⟨h, sets⟩ (turns 0) :: d.rows }

def turningFirst (n : Nat) (turns : Nat → Nat) : Nat → Nat
  | 0 => n
  | i + 1 => turns i

theorem browsed_turningFirst {h : Handle} {sets : List Tags} {rest : Nat → Feed} {n : Nat}
    (hn : n ≤ sets.length - 1) (turns : Nat → Nat) :
    (row h sets rest).browsed (turningFirst n turns) =
      ⟨Row.upTo ⟨h, sets⟩ n :: ((rest n).browsed turns).rows, ((rest n).browsed turns).error⟩ := by
  show (⟨_ :: ((rest (min n (sets.length - 1))).browsed turns).rows,
    ((rest (min n (sets.length - 1))).browsed turns).error⟩ : Delivered) = _
  rw [Nat.min_eq_left hn]
  rfl

/-- A drain that turns through every result sees the feed in one of these ways. -/
theorem exists_browsed_delivered (F : Feed) : ∃ turns, F.browsed turns = F.delivered := by
  induction F with
  | done => exact ⟨fun _ => 0, rfl⟩
  | failed e => exact ⟨fun _ => 0, rfl⟩
  | row h sets rest ih =>
      obtain ⟨turns, hrest⟩ := ih (sets.length - 1)
      refine ⟨turningFirst (sets.length - 1) turns, ?_⟩
      rw [browsed_turningFirst (Nat.le_refl _), hrest, Row.upTo,
        List.take_of_length_le (show sets.length ≤ sets.length - 1 + 1 by omega)]
      rfl

/-- Someone who never turns sees it in another. -/
theorem skim_eq_browsed (F : Feed) : F.skim = F.browsed fun _ => 0 := by
  induction F with
  | done => rfl
  | failed e => rfl
  | row h sets rest ih => rw [skim, browsed, ih 0, Nat.zero_min]; rfl

/-- Of a feed that does not mind turning the rows of a full drain are seen, each as far as it is
turned to. -/
theorem Uniform.browsed_eq {F : Feed} (hF : F.Uniform) (turns : Nat → Nat) :
    F.browsed turns =
      ⟨F.delivered.rows.mapIdx fun i r => r.upTo (turns i), F.delivered.error⟩ := by
  induction F generalizing turns with
  | done => rfl
  | failed e => rfl
  | row h sets rest ih =>
      have hsame : rest (min (turns 0) (sets.length - 1)) = rest (sets.length - 1) :=
        (hF _).1.trans (hF _).1.symm
      have hd : (Feed.row h sets rest).delivered =
          ⟨⟨h, sets⟩ :: (rest (sets.length - 1)).delivered.rows,
            (rest (sets.length - 1)).delivered.error⟩ := rfl
      rw [browsed, hsame, ih _ (hF _).2, hd, List.mapIdx_cons]

end Feed

/-! ## Browsing a scanner -/

namespace Scanner

variable {S : Scanner}

theorem turning_le (S : Scanner) (n : Nat) (s : S.State) :
    S.order.le (S.turning n s).2 s := by
  induction n generalizing s with
  | zero => exact S.order.refl s
  | succ n ih => exact S.order.trans (ih _) (S.nextPath_le s .never)

/-- Pulls to the end, with `turns i` turns after the `i`-th result. What is seen is each handle with
the binding sets turned to, and the error on record in the end. -/
def browse (S : Scanner) (turns : Nat → Nat) (s : S.State) : Run Row S.State :=
  let o := S.next s .never
  match _h : o.answer with
  | .found h =>
      let v := S.turning (turns 0) o.state
      let r := S.browse (fun i => turns (i + 1)) v.2
      { r with items := ⟨h, S.tags o.state :: v.1⟩ :: r.items }
  | .nothing => ⟨[], S.error o.state, o.state, o.token⟩
  | .failed _ => ⟨[], S.error o.state, o.state, o.token⟩
termination_by S.order.wf.wrap s
decreasing_by exact S.order.lt_of_le_of_lt (S.turning_le _ _) (next_lt _h)

section

variable {turns : Nat → Nat} {s s' : S.State}

theorem browse_over {a : Answer Handle} (hn : S.next s .never = ⟨a, s', .never⟩)
    (ha : a.isFound = false) : S.browse turns s = ⟨[], S.error s', s', .never⟩ := by
  rw [browse]
  dsimp only
  split <;> simp_all [Answer.isFound]

theorem browse_found {h : Handle} (hn : S.next s .never = ⟨.found h, s', .never⟩) :
    S.browse turns s =
      { S.browse (fun i => turns (i + 1)) (S.turning (turns 0) s').2 with
        items := ⟨h, S.tags s' :: (S.turning (turns 0) s').1⟩ ::
          (S.browse (fun i => turns (i + 1)) (S.turning (turns 0) s').2).items } := by
  rw [browse]
  dsimp only
  split <;> simp_all

end

/-- What is seen of a scanner is what is seen of its feed. -/
theorem Shows.browse (hS : S.Idles) {F : Feed} {s : S.State} (hs : S.Shows F s)
    (he : S.error s = none) (turns : Nat → Nat) :
    ∃ s', S.browse turns s = ⟨(F.browsed turns).rows, (F.browsed turns).error, s', .never⟩ := by
  induction F generalizing s turns with
  | done =>
      obtain ⟨s', hn⟩ := hs
      have herror := S.error_next he .never
      rw [hn] at herror
      exact ⟨s', by rw [browse_over hn rfl, herror]; rfl⟩
  | failed e =>
      obtain ⟨s', hn⟩ := hs
      have herror := S.error_next he .never
      rw [hn] at herror
      exact ⟨s', by rw [browse_over hn rfl, herror]; rfl⟩
  | row h sets rest ih =>
      obtain ⟨s', hn, ho⟩ := hs
      have he' : S.error s' = none := by
        have herror := S.error_next he .never
        rwa [hn] at herror
      obtain ⟨s'', hturn, hafter, he''⟩ := ho.turning hS he' (turns 0)
      obtain ⟨s₃, hrest⟩ := ih _ hafter he'' fun i => turns (i + 1)
      have htags : S.tags s' :: sets.tail.take (turns 0) = sets.take (turns 0 + 1) := by
        obtain ⟨-, others, rfl⟩ := ho.shown
        simp
      exact ⟨s₃, by rw [browse_found hn, hturn, hrest, htags]; rfl⟩

end Scanner

end GraphQuery
