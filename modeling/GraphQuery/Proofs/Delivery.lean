import GraphQuery.Proofs.Narrowing.Query

/-!
# Runs that end early

What a scanner delivers is a list of rows, fixed before anybody reads it: a limit and a callback
decide how far the list is read, and not what stands in it. Nothing that lies past the row at which
a reading ends is seen, an error included. So a run with a limit, and one that its callback breaks,
delivers the first rows of the run that goes on to the end.
-/

namespace GraphQuery

/-- A callback: its state after a row, and whether it breaks there. It has no hand in the token. -/
abbrev Callback (σ : Type) : Type :=
  ResultRow → σ → σ × Bool

namespace Callback

variable {σ : Type}

def visitor (f : Callback σ) (row : ResultRow) (x : σ) (t : Token) : Visited σ :=
  ⟨(f row x).1, t, (f row x).2⟩

def goOn : Callback Unit := fun _ _ =>
  ((), false)

def recording (f : Callback σ) : Callback (σ × List ResultRow) := fun row x =>
  (((f row x.1).1, row :: x.2), (f row x.1).2)

/-- The first row on which the callback breaks, counted from one. -/
def breakAt (f : Callback σ) : σ → List ResultRow → Option Nat
  | _, [] => none
  | x, row :: rows =>
      if (f row x).2 then some 1 else (f.breakAt (f row x).1 rows).map (· + 1)

theorem breakAt_goOn (rows : List ResultRow) : goOn.breakAt () rows = none := by
  induction rows with
  | nil => rfl
  | cons row rows ih => exact congrArg (Option.map (· + 1)) ih

theorem breakAt_take {f : Callback σ} {x : σ} {rows : List ResultRow} {k m : Nat}
    (hk : f.breakAt x rows = some k) (hm : k ≤ m) : f.breakAt x (rows.take m) = some k := by
  induction rows generalizing x k m with
  | nil => cases hk
  | cons row rows ih =>
      unfold breakAt at hk
      split at hk
      · cases hk
        obtain ⟨m, rfl⟩ : ∃ m', m = m' + 1 := ⟨m - 1, by omega⟩
        rw [List.take_succ_cons, breakAt, if_pos (by assumption)]
      · obtain ⟨j, hj, rfl⟩ := Option.map_eq_some_iff.1 hk
        obtain ⟨m, rfl⟩ : ∃ m', m = m' + 1 := ⟨m - 1, by omega⟩
        rw [List.take_succ_cons, breakAt, if_neg (by assumption), ih hj (by omega)]
        rfl

end Callback

/-! ## Readings -/

/-- How far a reading has come; `ended` tells that the limit or the callback put an end to it. -/
structure Progress (σ : Type) where
  rows : Nat
  state : σ
  ended : Bool

namespace Delivery

variable {σ : Type} {d : Delivery} {f : Callback σ}

def read (d : Delivery) (f : Callback σ) : List ResultRow → Nat → σ → Progress σ
  | [], n, x => ⟨n, x, d.isFull n⟩
  | row :: rows, n, x =>
      if d.isFull n then ⟨n, x, true⟩
      else if (f row x).2 then ⟨n + 1, (f row x).1, true⟩
      else d.read f rows (n + 1) (f row x).1

theorem read_full {n : Nat} (hn : d.isFull n = true) (rows : List ResultRow) (x : σ) :
    d.read f rows n x = ⟨n, x, true⟩ := by
  cases rows with
  | nil => rw [read, hn]
  | cons row rows => rw [read, if_pos hn]

theorem read_append (rows more : List ResultRow) (n : Nat) (x : σ) :
    d.read f (rows ++ more) n x =
      if (d.read f rows n x).ended then d.read f rows n x
      else d.read f more (d.read f rows n x).rows (d.read f rows n x).state := by
  induction rows generalizing n x with
  | nil =>
      cases hn : d.isFull n with
      | true => simp only [List.nil_append, read_full hn, if_true]
      | false => simp only [List.nil_append, read, hn, Bool.false_eq_true, if_false]
  | cons row rows ih =>
      simp only [List.cons_append, read]
      split
      · rfl
      · split
        · rfl
        · exact ih ..

theorem isFull_read {rows : List ResultRow} {n : Nat} {x : σ}
    (h : (d.read f rows n x).ended = false) : d.isFull (d.read f rows n x).rows = false := by
  induction rows generalizing n x with
  | nil => exact h
  | cons row rows ih =>
      unfold read at h ⊢
      split at h
      · cases h
      · split at h
        · cases h
        · rename_i hn hgo
          rw [if_neg hn, if_neg hgo]
          exact ih h

theorem read_image {τ : Type} {g : Callback τ} {i : σ → τ}
    (h : ∀ row x, g row (i x) = (i (f row x).1, (f row x).2)) (rows : List ResultRow)
    (n : Nat) (x : σ) :
    d.read g rows n (i x) =
      let r := d.read f rows n x
      ⟨r.rows, i r.state, r.ended⟩ := by
  induction rows generalizing n x with
  | nil => rfl
  | cons row rows ih =>
      simp only [read, h, ih]
      split
      · rfl
      · split <;> rfl

theorem read_limit (paths : Bool) (rows : List ResultRow) (n m : Nat) (x : σ) :
    (⟨paths, some (n + m)⟩ : Delivery).read f rows n x =
      let r := (⟨paths, none⟩ : Delivery).read f (rows.take m) n x
      { r with ended := r.ended || decide (m ≤ rows.length) } := by
  induction rows generalizing n m x with
  | nil => cases m <;> simp [read, isFull]
  | cons row rows ih =>
      cases m with
      | zero => simp [read, isFull]
      | succ m =>
          have hih := ih (n + 1) m (f row x).1
          rw [show n + 1 + m = n + (m + 1) by omega] at hih
          have hroom : decide (m + 1 ≤ (row :: rows).length) = decide (m ≤ rows.length) := by
            simp
          rw [hroom, List.take_succ_cons]
          simp only [read, isFull, Option.any_none, Option.any_some, Bool.false_eq_true, if_false,
            show decide (n + (m + 1) ≤ n) = false by simp]
          split
          · rfl
          · exact hih

theorem read_recording (paths : Bool) (rows : List ResultRow) (n : Nat) (x : σ)
    (seen : List ResultRow) :
    let r := (⟨paths, none⟩ : Delivery).read f.recording rows n (x, seen)
    match f.breakAt x rows with
    | none => r.rows = n + rows.length ∧ r.state.2 = rows.reverse ++ seen ∧ r.ended = false
    | some k => r.rows = n + k ∧ r.state.2 = (rows.take k).reverse ++ seen ∧ r.ended = true := by
  induction rows generalizing n x seen with
  | nil => exact ⟨rfl, rfl, rfl⟩
  | cons row rows ih =>
      have hih := ih (n + 1) (f row x).1 (row :: seen)
      simp only [read, isFull, Option.any_none, Bool.false_eq_true, if_false, Callback.breakAt]
      cases hstop : (f row x).2 with
      | true => simp [Callback.recording, hstop]
      | false =>
          simp only [Callback.recording, hstop, Bool.false_eq_true, if_false] at hih ⊢
          cases hk : f.breakAt (f row x).1 rows with
          | none =>
              rw [hk] at hih
              obtain ⟨hrows, hstate, hended⟩ := hih
              refine ⟨?_, ?_, hended⟩
              · rw [hrows, List.length_cons]
                omega
              · rw [hstate, List.reverse_cons, List.append_assoc]
                rfl
          | some k =>
              rw [hk] at hih
              obtain ⟨hrows, hstate, hended⟩ := hih
              refine ⟨?_, ?_, hended⟩
              · rw [hrows, Nat.add_assoc, Nat.add_comm 1]
              · rw [hstate, List.take_succ_cons, List.reverse_cons, List.append_assoc]
                rfl

def shown (d : Delivery) (rows : List ResultRow) : List ResultRow :=
  d.limit.elim rows rows.take

/-- A reading ends at the first of three: the row at which the callback breaks, the limit, and the
end of the list. -/
theorem read_shown (d : Delivery) (f : Callback σ) (rows : List ResultRow) (x : σ) :
    let r := d.read f.recording rows 0 (x, [])
    match f.breakAt x (d.shown rows) with
    | none => r.rows = (d.shown rows).length ∧ r.state.2 = (d.shown rows).reverse ∧
        r.ended = d.limit.any (· ≤ rows.length)
    | some k => r.rows = k ∧ r.state.2 = ((d.shown rows).take k).reverse ∧ r.ended = true := by
  obtain ⟨paths, limit⟩ := d
  have hread (rows : List ResultRow) := read_recording (f := f) paths rows 0 x []
  simp only [Nat.zero_add, List.append_nil] at hread
  cases limit with
  | none => exact hread rows
  | some m =>
      have hlimit := read_limit (f := f.recording) paths rows 0 m (x, [])
      have hcut := hread (rows.take m)
      simp only [Nat.zero_add] at hlimit
      simp only [hlimit, shown, Option.elim_some, Option.any_some]
      cases hk : f.breakAt x (rows.take m) with
      | none =>
          rw [hk] at hcut
          exact ⟨hcut.1, hcut.2.1, by rw [hcut.2.2, Bool.false_or]⟩
      | some k =>
          rw [hk] at hcut
          exact ⟨hcut.1, hcut.2.1, by rw [hcut.2.2, Bool.true_or]⟩

end Delivery

/-! ## What scanners have to be read -/

namespace Scanner

variable {σ : Type} {S : Scanner}

def turnOn (S : Scanner) (d : Delivery) (visit : ResultRow → σ → Token → Visited σ)
    (s : S.State) (rows : Nat) (x : σ) (t : Token) : ResultVisit S σ :=
  if !d.paths || d.isFull rows then ⟨.goOn, rows, x, s, t⟩
  else
    let o := S.nextPath s t
    match o.answer with
    | .found _ => S.visitResult d visit o.state rows x o.token
    | .nothing => ⟨.goOn, rows, x, o.state, o.token⟩
    | .failed e => ⟨.fail e, rows, x, o.state, o.token⟩

theorem turnOn_eq (d : Delivery) (visit : ResultRow → σ → Token → Visited σ) (s : S.State)
    (n : Nat) (x : σ) (t : Token) :
    S.turnOn d visit s n x t =
      if !d.paths || d.isFull n then ⟨.goOn, n, x, s, t⟩
      else
        let o := S.nextPath s t
        match _h : o.answer with
        | .found _ => S.visitResult d visit o.state n x o.token
        | .nothing => ⟨.goOn, n, x, o.state, o.token⟩
        | .failed e => ⟨.fail e, n, x, o.state, o.token⟩ := by
  rw [turnOn]
  split
  · rfl
  · dsimp only
    cases (S.nextPath s t).answer <;> rfl

theorem visitResult_eq (d : Delivery) (f : Callback σ) (s : S.State) (n : Nat) (x : σ) (t : Token) :
    S.visitResult d f.visitor s n x t =
      match S.result s with
      | none => S.turnOn d f.visitor s n x t
      | some id =>
          let row : ResultRow := ⟨id, (S.tags s).insert resultName id⟩
          if (f row x).2 then ⟨.stop, n + 1, (f row x).1, s, t⟩
          else S.turnOn d f.visitor s (n + 1) (f row x).1 t := by
  rw [visitResult]
  cases S.result s with
  | none => exact (S.turnOn_eq d f.visitor s n x t).symm
  | some id =>
      simp only [turnOn_eq]
      rfl

/-- What a visit of one result comes to for anybody: rows, and after the last of them an error or a
scanner to go on with. -/
structure Passed (S : Scanner) where
  rows : List ResultRow
  error : Option QueryError
  source : S.State
  token : Token

def Passed.Seen (p : Passed S) (d : Delivery) (f : Callback σ) (n : Nat) (x : σ)
    (v : ResultVisit S σ) : Prop :=
  let r := d.read f p.rows n x
  v.rows = r.rows ∧ v.state = r.state ∧
    if r.ended then v.after = .stop ∨ v.after = .goOn ∧ d.isFull v.rows = true
    else v.after = p.error.elim .goOn .fail ∧ v.source = p.source ∧ v.token = p.token

theorem Passed.Seen.cons {p : Passed S} {d : Delivery} {f : Callback σ} {n : Nat} {x : σ}
    {v : ResultVisit S σ} {row : ResultRow} (hn : d.isFull n = false) (hgo : (f row x).2 = false)
    (h : p.Seen d f (n + 1) (f row x).1 v) : { p with rows := row :: p.rows }.Seen d f n x v := by
  unfold Seen at h ⊢
  simpa only [Delivery.read, hn, hgo, Bool.false_eq_true, if_false] using h

/-- Holds for every limit and every callback, as long as there is room for a row. -/
def ForReaders (paths : Bool)
    (P : ∀ {σ : Type}, Delivery → Callback σ → Nat → σ → Prop) : Prop :=
  ∀ (σ : Type) (limit : Option Nat) (f : Callback σ) (n : Nat) (x : σ),
    (⟨paths, limit⟩ : Delivery).isFull n = false → P ⟨paths, limit⟩ f n x

theorem exists_passed (S : Scanner) (paths : Bool) (s : S.State) (t : Token) :
    ∃ p : Passed S, S.order.le p.source s ∧
      ForReaders paths fun d f n x => p.Seen d f n x (S.visitResult d f.visitor s n x t) := by
  induction s using S.paths_end.induction generalizing t with
  | _ s ih =>
      have hturn : ∃ p : Passed S, S.order.le p.source s ∧
          ForReaders paths fun d f n x => p.Seen d f n x (S.turnOn d f.visitor s n x t) := by
        cases paths with
        | false =>
            refine ⟨⟨[], none, s, t⟩, S.order.refl s, fun σ limit f n x hn => ?_⟩
            simp [Passed.Seen, turnOn, Delivery.read, hn]
        | true =>
            have hle := S.nextPath_le s t
            cases ho : (S.nextPath s t).answer with
            | nothing =>
                refine ⟨⟨[], none, (S.nextPath s t).state, (S.nextPath s t).token⟩, hle,
                  fun σ limit f n x hn => ?_⟩
                simp [Passed.Seen, turnOn, Delivery.read, hn, ho]
            | failed e =>
                refine ⟨⟨[], some e, (S.nextPath s t).state, (S.nextPath s t).token⟩, hle,
                  fun σ limit f n x hn => ?_⟩
                simp [Passed.Seen, turnOn, Delivery.read, hn, ho]
            | found u =>
                obtain ⟨p, hp, hseen⟩ := ih _ ⟨t, ho, rfl⟩ (S.nextPath s t).token
                refine ⟨p, S.order.trans hp hle, fun σ limit f n x hn => ?_⟩
                simpa [turnOn, hn, ho] using hseen σ limit f n x hn
      obtain ⟨p, hp, hseen⟩ := hturn
      cases hr : S.result s with
      | none =>
          refine ⟨p, hp, fun σ limit f n x hn => ?_⟩
          beta_reduce
          rw [visitResult_eq, hr]
          exact hseen σ limit f n x hn
      | some id =>
          refine ⟨{ p with rows := ⟨id, (S.tags s).insert resultName id⟩ :: p.rows }, hp,
            fun σ limit f n x hn => ?_⟩
          beta_reduce
          rw [visitResult_eq, hr]
          cases hgo : (f ⟨id, (S.tags s).insert resultName id⟩ x).2 with
          | true => simp [Passed.Seen, Delivery.read, hn, hgo]
          | false =>
              simp only [hgo, Bool.false_eq_true, if_false]
              refine Passed.Seen.cons hn hgo ?_
              cases hfull : (⟨paths, limit⟩ : Delivery).isFull (n + 1) with
              | true => simp [Passed.Seen, turnOn, Delivery.read_full hfull, hfull]
              | false => exact hseen σ limit f (n + 1) _ hfull

theorem visitFrom_eq {d : Delivery} (visit : ResultRow → σ → Token → Visited σ) (s : S.State)
    {n : Nat} (x : σ) (t : Token) (hn : d.isFull n = false) :
    S.visitFrom d visit s n x t =
      match (S.next s t).answer with
      | .nothing => ⟨.ok n, x, (S.next s t).token⟩
      | .failed e => ⟨.error e, x, (S.next s t).token⟩
      | .found _ =>
          let r := S.visitResult d visit (S.next s t).state n x (S.next s t).token
          match r.after with
          | .stop => ⟨.ok r.rows, r.state, r.token⟩
          | .fail e => ⟨.error e, r.state, r.token⟩
          | .goOn => S.visitFrom d visit r.source r.rows r.state r.token := by
  rw [visitFrom]
  simp only [hn, Bool.false_eq_true, if_false]
  split <;> rename_i ho
  · simp only [ho]
  · simp only [ho]
  · cases (S.visitResult d visit (S.next s t).state n x (S.next s t).token).after <;>
      simp only [ho]

/-- A visit that has read these rows; `error` is what comes after the last of them. -/
def Traced (d : Delivery) (f : Callback σ) (rows : List ResultRow) (error : Option QueryError)
    (n : Nat) (x : σ) (v : Visit σ) : Prop :=
  let r := d.read f rows n x
  v.state = r.state ∧
    v.outcome = if r.ended then .ok r.rows else error.elim (.ok r.rows) .error

/-- A delivery that is full does not ask the scanner, so what it would say does not matter. -/
theorem traced_full {d : Delivery} {f : Callback σ} {n : Nat} (hn : d.isFull n = true)
    (rows : List ResultRow) (error : Option QueryError) (s : S.State) (x : σ) (t : Token) :
    Traced d f rows error n x (S.visitFrom d f.visitor s n x t) := by
  rw [Traced, Delivery.read_full hn, visitFrom, if_pos hn]
  exact ⟨rfl, rfl⟩

theorem Passed.Seen.traced {p : Passed S} {d : Delivery} {f : Callback σ} {n : Nat} {x : σ}
    {v : ResultVisit S σ} {more : List ResultRow} {error : Option QueryError}
    (h : p.Seen d f n x v)
    (hmore : ∀ n x, d.isFull n = false → Traced d f more error n x
      (p.error.elim (S.visitFrom d f.visitor p.source n x p.token)
        fun e => ⟨.error e, x, p.token⟩)) :
    Traced d f (p.rows ++ more) error n x
      (match v.after with
        | .stop => ⟨.ok v.rows, v.state, v.token⟩
        | .fail e => ⟨.error e, v.state, v.token⟩
        | .goOn => S.visitFrom d f.visitor v.source v.rows v.state v.token) := by
  obtain ⟨hrows, hstate, hafter⟩ := h
  rw [Traced, Delivery.read_append]
  cases hended : (d.read f p.rows n x).ended with
  | true =>
      simp only [hended, if_true] at hafter ⊢
      obtain hstop | ⟨hgo, hfull⟩ := hafter
      · rw [hstop]
        exact ⟨hstate, congrArg _ hrows⟩
      · have hv := traced_full (f := f) hfull [] none v.source v.state v.token
        rw [Traced, Delivery.read_full hfull] at hv
        rw [hgo, ← hrows, ← hstate]
        exact hv
  | false =>
      simp only [hended, Bool.false_eq_true, if_false] at hafter ⊢
      obtain ⟨hgo, hsource, htoken⟩ := hafter
      have hv := hmore v.rows v.state (hrows ▸ Delivery.isFull_read hended)
      rw [hgo, hsource, htoken, ← hrows, ← hstate]
      cases he : p.error with
      | none => rwa [he] at hv
      | some e => rwa [he] at hv

/-- After a result there are the rows of what it leaves to go on with, or none before its error. -/
theorem Passed.exists_rest (p : Passed S) {paths : Bool}
    (hsource : ∃ (rows : List ResultRow) (error : Option QueryError),
      ForReaders paths fun d f n x =>
        Traced d f rows error n x (S.visitFrom d f.visitor p.source n x p.token)) :
    ∃ (more : List ResultRow) (error : Option QueryError),
      ForReaders paths fun d f n x => Traced d f more error n x
        (p.error.elim (S.visitFrom d f.visitor p.source n x p.token)
          fun e => ⟨.error e, x, p.token⟩) := by
  cases p.error with
  | none => exact hsource
  | some e =>
      refine ⟨[], some e, fun σ limit f n x hn => ?_⟩
      beta_reduce
      rw [Traced, Delivery.read, hn]
      exact ⟨rfl, rfl⟩

/-- A scanner delivers the same rows and fails with the same error to all readers who get there. -/
theorem exists_trace (S : Scanner) (paths : Bool) (s : S.State) (t : Token) :
    ∃ (rows : List ResultRow) (error : Option QueryError),
      ForReaders paths fun d f n x =>
        Traced d f rows error n x (S.visitFrom d f.visitor s n x t) := by
  induction s using S.order.wf.induction generalizing t with
  | _ s ih =>
      cases ho : (S.next s t).answer with
      | nothing =>
          refine ⟨[], none, fun σ limit f n x hn => ?_⟩
          beta_reduce
          rw [visitFrom_eq f.visitor s x t hn, ho, Traced, Delivery.read, hn]
          exact ⟨rfl, rfl⟩
      | failed e =>
          refine ⟨[], some e, fun σ limit f n x hn => ?_⟩
          beta_reduce
          rw [visitFrom_eq f.visitor s x t hn, ho, Traced, Delivery.read, hn]
          exact ⟨rfl, rfl⟩
      | found h =>
          obtain ⟨p, hp, hseen⟩ := S.exists_passed paths (S.next s t).state (S.next s t).token
          obtain ⟨more, error, hmore⟩ := p.exists_rest <|
            ih p.source (S.order.lt_of_le_of_lt hp (next_lt ho)) p.token
          refine ⟨p.rows ++ more, error, fun σ limit f n x hn => ?_⟩
          simp only [visitFrom_eq f.visitor s x t hn, ho]
          exact (hseen σ limit f n x hn).traced fun n x => hmore σ limit f n x

end Scanner

/-! ## Runs -/

namespace Session

variable {σ : Type}

/-- How a run of a path with this callback ends, and the rows that it gives to the callback. -/
def deliver (s : Session) (path : Path) (limit : Option Nat) (f : Callback σ) (x : σ) (t : Token) :
    Except QueryError Nat × List ResultRow :=
  let v := s.forEach path limit f.recording.visitor (x, []) t
  (v.outcome, v.state.2.reverse)

theorem isFull_effectiveLimit (s : Session) (paths : Bool) (limit : Option Nat) :
    (⟨paths, s.effectiveLimit limit⟩ : Delivery).isFull 0 = false := by
  unfold Delivery.isFull
  cases h : s.effectiveLimit limit with
  | none => rfl
  | some n =>
      have hn := (Option.filter_eq_some_iff.1 h).2
      simpa [Nat.pos_iff_ne_zero] using hn

/-- A path has the same rows, and fails with the same error after them, whatever the limit and the
callback of the run are. -/
theorem exists_trace (s : Session) (path : Path) (t : Token) :
    ∃ (rows : List ResultRow) (error : Option QueryError),
      ∀ (σ : Type) (limit : Option Nat) (f : Callback σ) (x : σ),
        Scanner.Traced ⟨s.config.includePaths, s.effectiveLimit limit⟩ f rows error 0 x
          (s.forEach path limit f.visitor x t) := by
  cases hplan : s.prepare path t with
  | mk plan t' =>
      cases plan with
      | error e =>
          refine ⟨[], some e, fun σ limit f x => ?_⟩
          rw [Scanner.Traced, Delivery.read, isFull_effectiveLimit, forEach, run, hplan]
          exact ⟨rfl, rfl⟩
      | ok plan =>
          let S := (plan.roles s.store).scanner
          obtain ⟨rows, error, h⟩ := S.exists_trace s.config.includePaths S.fresh t'
          refine ⟨rows, error, fun σ limit f x => ?_⟩
          rw [forEach, run, hplan]
          exact h σ (s.effectiveLimit limit) f 0 x (s.isFull_effectiveLimit _ limit)

/-- A run delivers what the limit leaves of the rows, as far as the callback reads. It does not fail
if it ends there, whatever comes after. -/
theorem exists_deliver (s : Session) (path : Path) (t : Token) :
    ∃ (rows : List ResultRow) (error : Option QueryError),
      ∀ (σ : Type) (limit : Option Nat) (f : Callback σ) (x : σ),
        let d : Delivery := ⟨s.config.includePaths, s.effectiveLimit limit⟩
        s.deliver path limit f x t =
          match f.breakAt x (d.shown rows) with
          | some k => (.ok k, (d.shown rows).take k)
          | none =>
              (if d.limit.any (· ≤ rows.length) then .ok (d.shown rows).length
                else error.elim (.ok (d.shown rows).length) .error, d.shown rows) := by
  obtain ⟨rows, error, h⟩ := s.exists_trace path t
  refine ⟨rows, error, fun σ limit f x => ?_⟩
  obtain ⟨hstate, houtcome⟩ := h _ limit f.recording (x, [])
  have hread := Delivery.read_shown ⟨s.config.includePaths, s.effectiveLimit limit⟩ f rows x
  rw [deliver, hstate, houtcome]
  intro d
  cases hk : f.breakAt x (d.shown rows) with
  | none =>
      rw [hk] at hread
      obtain ⟨hrows, hseen, hended⟩ := hread
      rw [hrows, hseen, hended, List.reverse_reverse]
  | some k =>
      rw [hk] at hread
      obtain ⟨hrows, hseen, hended⟩ := hread
      rw [hrows, hseen, hended, List.reverse_reverse]
      rfl

theorem forEach_keepRow (s : Session) (path : Path) (limit : Option Nat) (t : Token) :
    let v := s.forEach path limit keepRow [] t
    s.deliver path limit Callback.goOn () t = (v.outcome, v.state.reverse) := by
  obtain ⟨rows, error, h⟩ := s.exists_trace path t
  let keep : Callback (List ResultRow) := fun row rows => (row :: rows, false)
  obtain ⟨hstate, houtcome⟩ : Scanner.Traced _ keep rows error 0 []
    (s.forEach path limit keepRow [] t) := h _ limit keep []
  obtain ⟨hstate', houtcome'⟩ := h _ limit Callback.goOn.recording ((), [])
  have himage := Delivery.read_image (d := ⟨s.config.includePaths, s.effectiveLimit limit⟩)
    (f := Callback.goOn.recording) (g := keep) (i := Prod.snd) (fun _ _ => rfl) rows 0 ((), [])
  dsimp only at himage ⊢
  rw [deliver, hstate', houtcome', hstate, houtcome, himage]

/-- The rows that a plan is shown to have are those that a run delivers. -/
theorem deliver_meaning {s : Session} {path : Path} {plan : Plan}
    (hpaths : s.config.includePaths = true) (hplan : (s.prepare path .never).1 = .ok plan) :
    let d := (plan.meaning s.store).feed.delivered
    s.deliver path (some 0) Callback.goOn () .never =
      (d.error.elim (.ok d.results.length) .error, d.results) := by
  intro d
  have hprepare := prepare_eq hplan
  have hvisit := (plan.realizes s.store).shows.visitFrom 0 []
  have hrun : s.forEach path (some 0) keepRow [] .never =
      ⟨d.error.elim (.ok d.results.length) .error, d.results.reverse ++ [], .never⟩ := by
    rw [forEach, run, hprepare, hpaths]
    refine hvisit.trans ?_
    rw [Nat.zero_add]
    show _ = Visit.mk (d.error.elim _ _) _ _
    cases d.error <;> rfl
  rw [forEach_keepRow, hrun, List.append_nil, List.reverse_reverse]

/-- Runs that are limited or broken off deliver a prefix. Let `full` be the run without a limit and
with a callback that never breaks. A limit of `n` gives the first `n` of its rows, and the run ends
well if there are so many, even if the full run fails later; else it ends as the full run does. A
callback that breaks on row `k` is given the first `k` rows, and the outcome is `k`. -/
theorem deliver_prefix (s : Session) (path : Path) (t : Token) :
    let full := s.deliver path (some 0) Callback.goOn () t
    (∀ k, full.1 = .ok k → k = full.2.length) ∧
      ∀ (σ : Type) (f : Callback σ) (x : σ),
        (f.breakAt x full.2 = none → s.deliver path (some 0) f x t = full) ∧
        (∀ n, 0 < n → f.breakAt x (full.2.take n) = none →
          s.deliver path (some n) f x t =
            (if n ≤ full.2.length then .ok n else full.1, full.2.take n)) ∧
        ∀ limit k, f.breakAt x full.2 = some k → (s.effectiveLimit limit).all (k ≤ ·) →
          s.deliver path limit f x t = (.ok k, full.2.take k) := by
  intro full
  obtain ⟨rows, error, h⟩ := s.exists_deliver path t
  have hzero : s.effectiveLimit (some 0) = none := rfl
  have hfull : full = (error.elim (.ok rows.length) .error, rows) := by
    have := h Unit (some 0) Callback.goOn ()
    simpa [hzero, Delivery.shown, Callback.breakAt_goOn] using this
  rw [hfull]
  refine ⟨fun k hk => ?_, fun σ f x => ⟨fun hbreak => ?_, fun n hn hbreak => ?_,
    fun limit k hbreak hlimit => ?_⟩⟩
  · cases error with
    | none => exact (Except.ok.inj hk).symm
    | some e => cases hk
  · have := h σ (some 0) f x
    simpa [hzero, Delivery.shown, hbreak] using this
  · have hsome : s.effectiveLimit (some n) = some n := by simp [effectiveLimit, hn]
    have := h σ (some n) f x
    simp only [hsome, Delivery.shown, Option.elim_some, hbreak, Option.any_some,
      decide_eq_true_eq] at this
    rw [this]
    split
    · rw [List.length_take, Nat.min_eq_left (by assumption)]
    · rw [List.take_of_length_le (by omega)]
  · have := h σ limit f x
    cases hm : s.effectiveLimit limit with
    | none => simpa [hm, Delivery.shown, hbreak] using this
    | some m =>
        have hkm : k ≤ m := by simpa [hm] using hlimit
        simpa [hm, Delivery.shown, Callback.breakAt_take hbreak hkm, List.take_take,
          Nat.min_eq_left hkm] using this

/-- A filter that objects to the second number: the full run delivers the first number and fails.
A run for one row ends well, and so does one whose callback breaks at once. -/
theorem deliver_before_failure :
    let onlyOne : ValueTest := fun v => if v = .int 1 then .ok true else .error "not one"
    let s : Session := ⟨twoNumbers.toStore, { optimize := false }⟩
    let path : Path := .mk (.values [.int 1, .int 2]) [.filter onlyOne]
    let row : ResultRow := ⟨.ofNat 0, Tags.empty.insert resultName (.ofNat 0)⟩
    s.deliver path (some 0) Callback.goOn () .never = (.error (.callback "not one"), [row]) ∧
      s.deliver path (some 1) Callback.goOn () .never = (.ok 1, [row]) ∧
      s.deliver path none (fun _ _ => ((), true)) () .never = (.ok 1, [row]) := by
  intro onlyOne s path row
  have hplan : (s.prepare path .never).1 =
      .ok (.filter (.ofValues twoNumbers.toStore [.int 1, .int 2]) onlyOne) := by
    rw [prepare_plain rfl]
    simp [path, s, Path.compile, Path.build, Path.buildOps, Path.lower]
  have hfull : s.deliver path (some 0) Callback.goOn () .never =
      (.error (.callback "not one"), [row]) := by
    rw [deliver_meaning rfl hplan]
    decide +kernel
  have hruns := deliver_prefix s path .never
  simp only [hfull] at hruns
  refine ⟨hfull, ?_, ?_⟩
  · exact (hruns.2 Unit Callback.goOn ()).2.1 1 Nat.one_pos (Callback.breakAt_goOn _)
  · exact (hruns.2 Unit (fun _ _ => ((), true)) ()).2.2 none 1 rfl rfl

end Session

end GraphQuery
