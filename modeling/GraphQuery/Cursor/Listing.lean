import GraphQuery.Cursor.Basic
import GraphQuery.Store

/-!
# Listings

Cursors that show the binding sets of a handle from a list they hold: an index over everything a
scanner shows, and a scanner that shows everything another shows in the order of values.
-/

namespace GraphQuery

/-- A handle and those of its binding sets that are still to be shown, the one shown first; and what
they are taken from. -/
structure Listing (ρ : Type) where
  source : ρ
  current : Option Handle
  sets : List Tags

namespace Listing

variable {ρ : Type}

/-- Turns to the next binding set. -/
def turn (b : Listing ρ) (t : Token) : Outcome Unit (Listing ρ) :=
  match b.sets with
  | _ :: u :: rest => ⟨.found (), { b with sets := u :: rest }, t⟩
  | _ => ⟨.nothing, b, t⟩

theorem turns_end : WellFounded fun (b' b : Listing ρ) => ∃ t, (b.turn t).answer = .found () ∧
    (b.turn t).state = b' := by
  refine Subrelation.wf ?_ (InvImage.wf (fun b => b.sets.length) Nat.lt_wfRel.wf)
  rintro _ b ⟨t, hf, rfl⟩
  show List.length _ < List.length _
  unfold turn at hf ⊢
  split at hf
  · rename_i h
    simp [h]
  · simp at hf

end Listing

/-- Shows the handle of a listing and its binding sets one after the other. -/
def Cursor.listing {ρ : Type} (start : ρ) (canTurn : Listing ρ → Bool)
    (release : Listing ρ → Listing ρ) : Cursor where
  Body := Listing ρ
  start := ⟨start, none, []⟩
  shown := Listing.current
  binds b := b.sets.head?.getD .empty
  canTurn := canTurn
  turn := Listing.turn
  release := release
  turns_end := Listing.turns_end

/-! ## Answering from a record of a scan -/

/-- The binding sets under which a handle occurs in rows. -/
def bindingsOf (h : Handle) (rows : List Row) : List Tags :=
  (rows.filter fun r => r.handle = h).flatMap Row.sets

/-- Everything the scanner shows, unless the scan fails. -/
def Scanner.record (S : Scanner) (vet : Handle → Option QueryError) (t : Token) :
    Outcome (List Row) S.State :=
  (S.drain vet S.fresh t).complete

/-- Scans everything on the first probe and answers from the record. -/
def Scanner.recorded (S : Scanner) : Index where
  toCursor := .listing (none : Option (List Row)) (fun _ => true) fun b => { b with sets := [] }
  aim _ b := { b with current := none, sets := [] }
  probe h b t :=
    let look (rows : List Row) (t : Token) : Outcome Unit (Listing (Option (List Row))) :=
      match bindingsOf h rows with
      | [] => ⟨.nothing, ⟨some rows, none, []⟩, t⟩
      | sets => ⟨.found (), ⟨some rows, some h, sets⟩, t⟩
    match b.source with
    | some rows => look rows t
    | none => (S.record (fun _ => none) t).andThen (fun rows _ t => look rows t) fun _ => b

/-! ## The order of values -/

/-- Whether the value of one handle is not after that of another; handles without values are equal
to all. -/
def QuadStore.notAfter (store : QuadStore) (a b : Row) : Bool :=
  match store.resolve a.handle, store.resolve b.handle with
  | some v, some w => (v.totalCompare w).isLE
  | _, _ => true

/-- Objects to a handle that the store does not resolve. -/
def QuadStore.vet (store : QuadStore) (h : Handle) : Option QueryError :=
  if (store.resolve h).isSome then none else some (.unknownHandle h)

/-- Shows the rows of a list one after the other; they are made on the first pull. -/
def pullRow (rows : List Row) (b : Listing (Option (List Row))) (t : Token) :
    Outcome Handle (Listing (Option (List Row))) :=
  match rows with
  | [] => ⟨.nothing, { b with source := some [] }, t⟩
  | r :: rest => ⟨.found r.handle, ⟨some rest, some r.handle, r.sets⟩, t⟩

/-- Rows not made yet are above any that are. -/
def rowsDescent : Descent (Listing (Option (List Row))) :=
  (Descent.sum (.flat Unit) .nat).comap fun b =>
    match b.source with
    | none => .inl ()
    | some rows => .inr rows.length

theorem turn_le_rows (b : Listing (Option (List Row))) (t : Token) :
    rowsDescent.le (b.turn t).state b := by
  unfold Listing.turn
  split <;> exact rowsDescent.refl b

theorem pullRow_le (rows : List Row) (b : Listing (Option (List Row))) (t : Token)
    (h : b.source = none ∨ b.source = some rows) : rowsDescent.le (pullRow rows b t).state b := by
  rcases b with ⟨_ | xs, c, sets⟩
  · unfold pullRow
    split <;> trivial
  · obtain rfl : xs = rows := by simpa using h
    unfold pullRow
    split
    · exact rowsDescent.refl _
    · exact Nat.le_succ _

theorem pullRow_lt {rows : List Row} {b : Listing (Option (List Row))} {t : Token} {x : Handle}
    (h : b.source = none ∨ b.source = some rows) (hf : (pullRow rows b t).answer = .found x) :
    rowsDescent.lt (pullRow rows b t).state b := by
  rcases b with ⟨_ | xs, c, sets⟩
  · unfold pullRow
    split <;> trivial
  · obtain rfl : xs = rows := by simpa using h
    unfold pullRow at hf ⊢
    split at hf
    · simp at hf
    · exact Nat.lt_succ_self _

namespace Scanner

/-- Shows the next row in ascending order of values. -/
def pullSorted (S : Scanner) (store : QuadStore) (b : Listing (Option (List Row))) (t : Token) :
    Outcome Handle (Listing (Option (List Row))) :=
  match b.source with
  | some rows => pullRow rows b t
  | none =>
      (S.record store.vet t).andThen
        (fun rows _ t => pullRow (rows.mergeSort store.notAfter) b t) fun _ => b

theorem pullSorted_le (S : Scanner) (store : QuadStore) (b : Listing (Option (List Row)))
    (t : Token) : rowsDescent.le (S.pullSorted store b t).state b := by
  unfold pullSorted
  split
  · exact pullRow_le _ _ _ (.inr (by assumption))
  · exact Outcome.state_andThen (P := fun x => rowsDescent.le x b)
      (fun rows _ => pullRow_le _ _ _ (.inl (by assumption))) (rowsDescent.refl b)

theorem pullSorted_lt {S : Scanner} {store : QuadStore} {b : Listing (Option (List Row))}
    {t : Token} {h : Handle} (hf : (S.pullSorted store b t).answer = .found h) :
    rowsDescent.lt (S.pullSorted store b t).state b := by
  unfold pullSorted at hf ⊢
  split at hf
  · exact pullRow_lt (.inr (by assumption)) hf
  · obtain ⟨rows, _, heq⟩ := Outcome.found_andThen hf
    rw [heq] at hf ⊢
    exact pullRow_lt (.inl (by assumption)) hf

/-- Shows the results in ascending order of their values; equal values stay in order. -/
def sorted (S : Scanner) (store : QuadStore) : Scanner where
  toCursor := .listing (none : Option (List Row)) (fun _ => true) fun b => ⟨b.source, none, []⟩
  clear b := { b with current := none, sets := [] }
  canPull _ := true
  pull := S.pullSorted store
  descent := rowsDescent
  clear_le b := rowsDescent.refl b
  turn_le := turn_le_rows
  pull_le := S.pullSorted_le store
  pull_lt _ _ _ := pullSorted_lt

end Scanner

end GraphQuery
