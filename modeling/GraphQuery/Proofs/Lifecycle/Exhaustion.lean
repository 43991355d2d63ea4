import GraphQuery.Plan.Roles
import GraphQuery.Proofs.Interruption.Cursors
import GraphQuery.Proofs.Lifecycle.History
import GraphQuery.Store.Memory

/-!
# Exhausted scanners

A scanner is over when no call on it will ever find anything again. The scanner of every plan is
over once it has been moved on and found nothing, whatever has happened to it before: each way of
building a scanner has bodies in which nothing is found and which no call leaves, and a pull that
finds nothing ends in one of them.
-/

namespace GraphQuery

/-! ## Calls that find nothing -/

structure Outcome.Misses {α σ : Type} (P : σ → Prop) (o : Outcome α σ) : Prop where
  answer : o.answer.isFound = false
  state : P o.state

namespace Outcome

variable {α β σ τ : Type} {P : σ → Prop} {Q : τ → Prop} {o : Outcome α σ}

theorem Misses.ne_found (ho : o.Misses P) (a : α) : o.answer ≠ .found a := fun ha => by
  simpa [ha, Answer.isFound] using ho.answer

theorem Misses.andThen {go : α → σ → Token → Outcome β τ} {stay : σ → τ} (ho : o.Misses P)
    (hstay : ∀ s, P s → Q (stay s)) : (o.andThen go stay).Misses Q := by
  unfold Outcome.andThen
  cases ha : o.answer with
  | found a => exact (ho.ne_found a ha).elim
  | nothing => exact ⟨rfl, hstay _ ho.state⟩
  | failed e => exact ⟨rfl, hstay _ ho.state⟩

theorem nothing_andThen {go : α → σ → Token → Outcome β τ} {stay : σ → τ}
    (h : (o.andThen go stay).answer = .nothing) :
    (o.answer = .nothing ∧ (o.andThen go stay).state = stay o.state) ∨
      ∃ a, o.answer = .found a ∧ o.andThen go stay = go a o.state o.token := by
  unfold andThen at h ⊢
  cases ha : o.answer with
  | found a => exact .inr ⟨a, rfl, rfl⟩
  | nothing => exact .inl ⟨rfl, rfl⟩
  | failed e => simp [ha] at h

end Outcome

theorem Run.complete_ne_nothing {α σ : Type} (r : Run α σ) : r.complete.answer ≠ .nothing := by
  unfold complete
  cases r.error <;> simp

/-! ## Scanners that are over -/

namespace Scanner

variable {S : Scanner} {s : S.State} {store : QuadStore}

/-- No call will find anything, whatever calls come before it. -/
def Over (S : Scanner) (s : S.State) : Prop :=
  ∀ future c, (S.device.call (S.device.after s future) c).found = false

/-- States in which nothing is found and which no call leaves are over. -/
theorem over_of_kept {F : S.State → Prop}
    (hF : ∀ s c, F s → (S.device.call s c).found = false ∧ F (S.device.call s c).state)
    (hs : F s) : S.Over s := by
  intro future c
  induction future generalizing s with
  | nil => exact (hF s c hs).1
  | cons d future ih => exact ih (hF s d hs).2

namespace Over

theorem call (hs : S.Over s) (c : Call Unit) : S.Over (S.device.call s c).state :=
  fun future d => hs (c :: future) d

theorem next (hs : S.Over s) (t : Token) : (S.next s t).Misses S.Over :=
  ⟨hs [] (.advance () t), hs.call (.advance () t)⟩

theorem nextPath (hs : S.Over s) (t : Token) : (S.nextPath s t).Misses S.Over :=
  ⟨hs [] (.nextPath t), hs.call (.nextPath t)⟩

theorem close (hs : S.Over s) : S.Over (S.close s) :=
  hs.call .close

theorem sift {α τ : Type} {judge : Handle → τ → Token → Outcome α τ} (hs : S.Over s) (x : τ)
    (t : Token) : (S.sift judge s x t).Misses fun p => S.Over p.1 := by
  have hn := hs.next t
  rw [Scanner.sift]
  dsimp only
  split
  · exact ⟨rfl, hn.state⟩
  · exact ⟨rfl, hn.state⟩
  · exact (hn.ne_found _ ‹_›).elim

end Over

theorem over_of_stuck (hs : s.Stuck) : S.Over s :=
  fun future c => ((S.device.responds _ c).stuck (Device.stuck_after hs future)).2

structure Spent (S : Scanner) (P : S.Body → Prop) : Prop where
  turn : ∀ b t, P b → S.canTurn b = true → (S.turn b t).Misses P
  clear : ∀ b, P b → P (S.clear b)
  pull : ∀ b t, P b → S.canPull b = true → (S.pull (S.clear b) t).Misses P
  release : ∀ b, P b → P (S.release b)

theorem Spent.over {P : S.Body → Prop} (hS : S.Spent P) (hs : P s.body) : S.Over s := by
  refine over_of_kept (F := fun s => P s.body) (fun s c hs => ?_) hs
  cases c with
  | advance _ t =>
      show (S.next s t).answer.isFound = false ∧ P (S.next s t).state.body
      rcases S.next_cases s t with ⟨-, h⟩ | ⟨e, ha, hbody⟩ | ⟨t', hcan, ha, hbody⟩
      · exact h ▸ ⟨rfl, hs⟩
      · exact ⟨congrArg Answer.isFound ha, hbody ▸ hS.clear s.body hs⟩
      · have hpull := hS.pull s.body t' hs hcan
        exact ⟨ha ▸ hpull.answer, hbody ▸ hpull.state⟩
  | nextPath t =>
      show (S.nextPath s t).answer.isFound = false ∧ P (S.nextPath s t).state.body
      rcases S.nextPath_cases s t with ⟨-, h⟩ | ⟨e, ha, hbody⟩ | ⟨t', hcan, ha, hbody⟩
      · exact h ▸ ⟨rfl, hs⟩
      · exact ⟨congrArg Answer.isFound ha, hbody ▸ hs⟩
      · have hturn := hS.turn s.body t' hs hcan
        exact ⟨ha ▸ hturn.answer, hbody ▸ hturn.state⟩
  | close => exact ⟨rfl, hS.release s.body hs⟩

/-- Once the scanner has been moved on and found nothing, it is over. -/
def Halts (S : Scanner) : Prop :=
  ∀ s t, (S.next s t).answer = .nothing → S.Over (S.next s t).state

/-- It is enough that a pull that finds nothing ends in a spent body, and that where none is tried
the body is spent already. -/
theorem Spent.halts {P : S.Body → Prop} (hS : S.Spent P)
    (hpull : ∀ b t, S.canPull b = true → (S.pull (S.clear b) t).answer = .nothing →
      P (S.pull (S.clear b) t).state)
    (hdeclined : ∀ b, S.canPull b = false → P b) : S.Halts := by
  intro s t hn
  refine hS.over ?_
  rcases S.next_cases s t with ⟨hcan, h⟩ | ⟨e, ha, -⟩ | ⟨t', hcan, ha, hbody⟩
  · exact h ▸ hdeclined s.body hcan
  · simp [ha] at hn
  · exact hbody ▸ hpull s.body t' hcan (ha ▸ hn)

theorem Halts.over (hS : S.Halts) {t : Token} (hn : (S.next s t).answer.isFound = false) :
    S.Over (S.next s t).state := by
  cases ha : (S.next s t).answer with
  | found h => simp [ha, Answer.isFound] at hn
  | nothing => exact hS s t ha
  | failed e =>
      refine over_of_stuck ?_
      unfold Scanner.next at ha ⊢
      split at ha
      · rw [if_pos ‹_›]
        exact .inl (Option.isSome_iff_exists.2 ⟨e, Guarded.error_of_failed ha⟩)
      · simp at ha

/-! ## Each way of building a scanner -/

theorem halts_ofList (handles : List Handle) : (ofList handles).Halts := by
  refine Spent.halts (P := fun b : ListPlace => b.rest = []) ?_ (fun b t _ hn => ?_)
    fun _ hcan => nomatch hcan
  · refine ⟨fun _ _ _ hcan => (nomatch hcan), fun _ hb => hb, fun b t hb _ => ?_, fun _ hb => hb⟩
    have hpull : (ofList handles).pull ((ofList handles).clear b) t =
        ⟨.nothing, { b with current := none }, t⟩ := by
      simp [ofList, hb]
    rw [hpull]
    exact ⟨rfl, hb⟩
  · simp only [ofList] at hn ⊢
    cases hrest : b.rest with
    | nil => rfl
    | cons h rest => simp [hrest] at hn

theorem Halts.naming (hS : S.Halts) (names : List String) : (S.naming names).Halts :=
  Spent.halts (P := S.Over)
    ⟨fun _ t hs _ => hs.nextPath t, fun _ hs => hs, fun _ t hs _ => hs.next t, fun _ hs => hs.close⟩
    (fun s t _ => hS s t) fun _ hcan => nomatch hcan

theorem Halts.sift {α τ : Type} {judge : Handle → τ → Token → Outcome α τ} (hS : S.Halts)
    {s : S.State} {x : τ} {t : Token} (hn : (S.sift judge s x t).answer = .nothing) :
    S.Over (S.sift judge s x t).state.1 := by
  fun_induction Scanner.sift S judge s x t with
  | case1 s x t o ho => exact hS s t ho
  | case6 s x t o h ho v hv t' hcheck ih => exact ih hn
  | _ => simp at hn

theorem Halts.sieve {κ : Type} {memory : κ} {forget : κ → κ}
    {judge : Handle → κ → Token → Outcome Unit κ} (hS : S.Halts) :
    (S.sieve memory forget judge).Halts :=
  Spent.halts (P := fun b => S.Over b.1)
    { turn := fun _ t hb _ => ⟨(hb.nextPath t).answer, (hb.nextPath t).state⟩
      clear := fun _ hb => hb
      pull := fun b t hb _ => hb.sift b.2 t
      release := fun _ hb => hb.close }
    (fun _ _ _ hn => hS.sift hn) fun _ hcan => nomatch hcan

/-- A limit is spent when it is used up, or when its scanner is over. -/
theorem Halts.limit (hS : S.Halts) (n : Nat) : (S.limit n).Halts := by
  -- Where a call gets past the count, it is the scanner that is over.
  have hover {b : Counted S} (hb : (0 < n ∧ n ≤ b.count) ∨ S.Over b.source)
      (hcan : (S.limit n).canPull b = true) : S.Over b.source := by
    refine hb.resolve_left fun hlimit => ?_
    have hcan : n = 0 ∨ b.count < n := of_decide_eq_true hcan
    omega
  refine Spent.halts (P := fun b : Counted S => (0 < n ∧ n ≤ b.count) ∨ S.Over b.source)
    { turn := fun b t hb hcan => ?_
      clear := fun _ hb => hb
      pull := fun b t hb hcan => ?_
      release := fun _ hb => hb.imp_right Over.close }
    (fun b t _ hn => .inr (hS b.source t hn)) fun b hcan => ?_
  · exact ⟨((hover hb hcan).nextPath t).answer, .inr ((hover hb hcan).nextPath t).state⟩
  · exact ⟨((hover hb hcan).next t).answer, .inr ((hover hb hcan).next t).state⟩
  · have hcan : ¬(n = 0 ∨ b.count < n) := of_decide_eq_false hcan
    exact .inl (by omega)

theorem Over.advancePast (hs : S.Over s) (n : Nat) (t : Token) :
    (S.advancePast n s t).Misses fun b => S.Over b.source := by
  cases n with
  | zero => exact ⟨(hs.next t).answer, (hs.next t).state⟩
  | succ n => exact (hs.next t).andThen fun _ hs => hs

theorem Halts.advancePast (hS : S.Halts) : ∀ {n : Nat} {s : S.State} {t : Token},
    (S.advancePast n s t).answer = .nothing → S.Over (S.advancePast n s t).state.source
  | 0, s, t, hn => hS s t hn
  | n + 1, s, t, hn => by
      unfold Scanner.advancePast at hn ⊢
      rcases Outcome.nothing_andThen hn with ⟨ha, hstate⟩ | ⟨h, ha, heq⟩
      · rw [hstate]
        exact hS s t ha
      · rw [heq] at hn ⊢
        split at hn
        · simp at hn
        · exact hS.advancePast hn

theorem Halts.skip (hS : S.Halts) (n : Nat) : (S.skip n).Halts :=
  Spent.halts (P := fun b : Counted S => S.Over b.source)
    { turn := fun _ t hb _ => ⟨(hb.nextPath t).answer, (hb.nextPath t).state⟩
      clear := fun _ hb => hb
      pull := fun b t hb _ => hb.advancePast b.count t
      release := fun _ hb => hb.close }
    (fun _ _ _ hn => hS.advancePast hn) fun _ hcan => nomatch hcan

theorem Halts.mapped (hS : S.Halts) (store : QuadStore) (f : Value → Except String Value) :
    (S.mapped store f).Halts := by
  have hvalue {a : Answer Handle} (ha : a.isFound = false) : a.value? = none := by
    cases a <;> simp_all [Answer.isFound, Answer.value?]
  refine Spent.halts (P := fun b : MappedPlace S => b.current = none ∧ S.Over b.source)
    { turn := fun b t hb hcan => ?_
      clear := fun _ hb => ⟨rfl, hb.2⟩
      pull := fun b t hb _ => ?_
      release := fun _ hb => ⟨rfl, hb.2.close⟩ } (fun b t _ hn => ?_) fun _ hcan => nomatch hcan
  · simp [Scanner.mapped, hb.1] at hcan
  · have hsift : (S.sift (fun h x t => ⟨imageOf store f h, x, t⟩) b.source () t).Misses _ :=
      hb.2.sift () t
    exact ⟨hsift.answer, hvalue hsift.answer, hsift.state⟩
  · have hn : (S.sift (fun h x t => ⟨imageOf store f h, x, t⟩) b.source () t).answer = .nothing :=
      hn
    exact ⟨hvalue (congrArg Answer.isFound hn), hS.sift hn⟩

theorem pullRow_nothing {rows : List Row} {b : Listing (Option (List Row))} {t : Token}
    (hb : b.sets = []) (hn : (pullRow rows b t).answer = .nothing) :
    (pullRow rows b t).state.source = some [] ∧ (pullRow rows b t).state.sets = [] := by
  cases rows with
  | nil => exact ⟨rfl, hb⟩
  | cons r rest => simp [pullRow] at hn

theorem pullSorted_nothing {b : Listing (Option (List Row))} {t : Token} (hb : b.sets = [])
    (hn : (S.pullSorted store b t).answer = .nothing) :
    (S.pullSorted store b t).state.source = some [] ∧
      (S.pullSorted store b t).state.sets = [] := by
  unfold Scanner.pullSorted at hn ⊢
  cases hsource : b.source with
  | some rows =>
      simp only [hsource] at hn ⊢
      exact pullRow_nothing hb hn
  | none =>
      simp only [hsource] at hn ⊢
      rcases Outcome.nothing_andThen hn with ⟨ha, -⟩ | ⟨rows, -, heq⟩
      · exact (Run.complete_ne_nothing _ ha).elim
      · rw [heq] at hn ⊢
        exact pullRow_nothing hb hn

/-- Sorted rows are spent when none is left, behind the one shown as well. -/
theorem halts_sorted (S : Scanner) (store : QuadStore) : (S.sorted store).Halts := by
  refine Spent.halts
    (P := fun b : Listing (Option (List Row)) => b.source = some [] ∧ b.sets = [])
    { turn := fun b t hb _ => ?_
      clear := fun _ hb => ⟨hb.1, rfl⟩
      pull := fun b t hb _ => ?_
      release := fun _ hb => ⟨hb.1, rfl⟩ }
    (fun b t _ hn => pullSorted_nothing (b := { b with current := none, sets := [] }) rfl hn)
    fun _ hcan => nomatch hcan
  · show (Listing.turn b t).Misses _
    unfold Listing.turn
    split
    · rename_i hsets
      simp [hb.2] at hsets
    · exact ⟨rfl, hb⟩
  · show (S.pullSorted store { b with current := none, sets := [] } t).Misses _
    simp only [Scanner.pullSorted, hb.1, pullRow]
    exact ⟨rfl, rfl, rfl⟩

end Scanner

/-- The binding sets of a group are all taken, or one of the indexes fails. -/
theorem GroupState.alternates_ne_nothing : ∀ (Is : List Index) (g : GroupState Is) (t : Token),
    (alternates Is g t).answer ≠ .nothing
  | [], _, _, hn => by simp [alternates] at hn
  | I :: Is, (s, g), t, hn => by
      simp only [alternates] at hn
      rcases Outcome.nothing_andThen hn with ⟨ha, -⟩ | ⟨sets, -, heq⟩
      · exact Run.complete_ne_nothing _ ha
      · rw [heq] at hn
        have hrest := alternates_ne_nothing Is g (I.alternates s t).complete.token
        cases ha : (alternates Is g (I.alternates s t).complete.token).answer <;>
          simp_all [Outcome.inState, Outcome.mapValue, Answer.map]

def BranchState.AtEnd : (Ss : List Scanner) → BranchState Ss → Prop
  | [], _ => True
  | _ :: _, .inl _ => False
  | _ :: Ss, .inr b => AtEnd Ss b

namespace BranchState

theorem misses_turn : ∀ (Ss : List Scanner) {b : BranchState Ss}, AtEnd Ss b → ∀ t : Token,
    (turn Ss b t).Misses (AtEnd Ss)
  | [], _, hb, _ => ⟨rfl, hb⟩
  | _ :: Ss, .inr _, hb, t => ⟨(misses_turn Ss hb t).answer, (misses_turn Ss hb t).state⟩

theorem misses_pull : ∀ (Ss : List Scanner) {b : BranchState Ss}, AtEnd Ss b → ∀ t : Token,
    (pull Ss b t).Misses (AtEnd Ss)
  | [], _, hb, _ => ⟨rfl, hb⟩
  | _ :: Ss, .inr _, hb, t => ⟨(misses_pull Ss hb t).answer, (misses_pull Ss hb t).state⟩

theorem atEnd_close : ∀ (Ss : List Scanner) {b : BranchState Ss}, AtEnd Ss b →
    AtEnd Ss (close Ss b)
  | [], _, hb => hb
  | _ :: Ss, .inr _, hb => atEnd_close Ss hb

theorem atEnd_pull : ∀ (Ss : List Scanner) {b : BranchState Ss} {t : Token},
    (pull Ss b t).answer = .nothing → AtEnd Ss (pull Ss b t).state
  | [], _, _, _ => trivial
  | S :: Ss, .inl s, t, hn => by
      rw [pull, pullThen_eq] at hn ⊢
      unfold Outcome.either at hn ⊢
      cases ha : (S.next s t).answer with
      | found h => simp [ha] at hn
      | failed e => simp [ha] at hn
      | nothing =>
          rw [ha] at hn
          dsimp only at hn ⊢
          split at hn
          · simp at hn
          · exact atEnd_pull Ss hn
  | _ :: Ss, .inr _, _, hn => atEnd_pull Ss hn

end BranchState

namespace Scanner

variable {S : Scanner} {Is : List Index} {W : Walk} {C : Closure}

theorem halts_union (Ss : List Scanner) : (union Ss).Halts :=
  Spent.halts (P := BranchState.AtEnd Ss)
    { turn := fun _ t hb _ => BranchState.misses_turn Ss hb t
      clear := fun _ hb => hb
      pull := fun _ t hb _ => BranchState.misses_pull Ss hb t
      release := fun _ hb => BranchState.atEnd_close Ss hb }
    (fun _ _ _ hn => BranchState.atEnd_pull Ss hn) fun _ hcan => nomatch hcan

theorem gather_ne_nothing (position : Nat) (s : S.State × GroupState Is) (t : Token) :
    (S.gather Is position s t).answer ≠ .nothing := by
  intro hn
  unfold gather at hn
  rcases Outcome.nothing_andThen hn with ⟨ha, -⟩ | ⟨own, -, heq⟩
  · exact Run.complete_ne_nothing _ ha
  · rw [heq] at hn
    have hothers := GroupState.alternates_ne_nothing Is s.2 (S.alternates s.1 t).complete.token
    cases ha : (GroupState.alternates Is s.2 (S.alternates s.1 t).complete.token).answer <;>
      simp_all [Outcome.inState, Outcome.mapValue, Answer.map]

/-- A join is spent when its driver is over. -/
theorem Halts.join (hS : S.Halts) (position : Nat) (Is : List Index) :
    (S.join position Is).Halts := by
  refine Spent.halts
    (P := fun b : Combining (S.State × GroupState Is) => b.current = none ∧ S.Over b.sources.1)
    { turn := fun b t hb hcan => ?_
      clear := fun _ hb => ⟨rfl, hb.2⟩
      pull := fun b t hb _ => ?_
      release := fun _ hb => ⟨rfl, hb.2.close⟩ } (fun b t _ hn => ?_) fun _ hcan => nomatch hcan
  · simp [Scanner.join, Cursor.combining, hb.1] at hcan
  · show (S.pullJoined Is position { b with current := none } t).Misses _
    exact (hb.2.sift b.sources.2 t).andThen fun _ hs => ⟨rfl, hs⟩
  · have hn : (S.pullJoined Is position { b with current := none } t).answer = .nothing := hn
    show (S.pullJoined Is position { b with current := none } t).state.current = none ∧
      S.Over (S.pullJoined Is position { b with current := none } t).state.sources.1
    unfold pullJoined at hn ⊢
    rcases Outcome.nothing_andThen hn with ⟨ha, hstate⟩ | ⟨h, -, heq⟩
    · rw [hstate]
      exact ⟨rfl, hS.sift ha⟩
    · rw [heq] at hn
      rcases Outcome.nothing_andThen hn with ⟨ha, -⟩ | ⟨sets, -, heq⟩
      · exact (gather_ne_nothing _ _ _ ha).elim
      · simp [heq] at hn

theorem Over.advance {b : Walking S W} (hquads : b.quads = []) (hs : S.Over b.source) (t : Token) :
    (b.advance t).Misses fun b => b.quads = [] ∧ S.Over b.source := by
  rw [Walking.advance_source hquads]
  exact (hs.next t).andThen fun _ hs => ⟨hquads, hs⟩

theorem Halts.advance (hS : S.Halts) {b : Walking S W} {t : Token}
    (hn : (b.advance t).answer = .nothing) :
    (b.advance t).state.quads = [] ∧ S.Over (b.advance t).state.source := by
  fun_induction Walking.advance b t with
  | case4 b t id quads hq o b' ho t' hcheck ih => exact ih hn
  | case5 b t hq o ho => exact ⟨hq, hS b.source t ho⟩
  | case9 b t hq o h ho a he b' t' hcheck ih => exact ih hn
  | _ => simp at hn

theorem Halts.step (hS : S.Halts) (W : Walk) : (S.step W).Halts := by
  refine Spent.halts
    (P := fun b : Combining (Walking S W) =>
      b.current = none ∧ b.sources.quads = [] ∧ S.Over b.sources.source)
    { turn := fun b t hb hcan => ?_
      clear := fun _ hb => ⟨rfl, hb.2⟩
      pull := fun b t hb _ => ?_
      release := fun _ hb => ⟨rfl, hb.2.1, hb.2.2.close⟩ } (fun b t _ hn => ?_)
    fun _ hcan => nomatch hcan
  · simp [Scanner.step, Cursor.combining, hb.1] at hcan
  · show (pullWalked { b with current := none } t).Misses _
    exact (hb.2.2.advance hb.2.1 t).andThen fun _ hs => ⟨rfl, hs⟩
  · have hn : (pullWalked { b with current := none } t).answer = .nothing := hn
    show (pullWalked { b with current := none } t).state.current = none ∧
      (pullWalked { b with current := none } t).state.sources.quads = [] ∧
      S.Over (pullWalked { b with current := none } t).state.sources.source
    unfold pullWalked at hn ⊢
    rcases Outcome.nothing_andThen hn with ⟨ha, hstate⟩ | ⟨r, -, heq⟩
    · rw [hstate]
      exact ⟨rfl, hS.advance ha⟩
    · simp [heq] at hn

end Scanner

namespace Closure

variable {C : Closure} {b : ClosureState}

def Done (b : ClosureState) : Prop :=
  b.finished = true ∧ b.queue = []

theorem queue_of_show? (hb : show? b = none) : b.queue = [] := by
  cases hqueue : b.queue with
  | nil => rfl
  | cons h rest => simp [show?, hqueue] at hb

theorem done_finish (hb : show? b = none) (t : Token) : Done (finish b t).state := by
  have hqueue : b.queue = [] := queue_of_show? hb
  unfold finish
  split <;> exact ⟨rfl, hqueue⟩

theorem expand_ne_nothing (b : ClosureState) (frontier : Reached) (t : Token) :
    (C.expand b frontier t).answer ≠ .nothing := by
  intro hn
  unfold expand at hn
  rcases Outcome.nothing_andThen hn with ⟨ha, -⟩ | ⟨rows, -, heq⟩
  · exact Run.complete_ne_nothing _ ha
  · simp [heq] at hn

theorem done_descend {frontier : Reached} {t : Token} (hb : show? b = none)
    (hn : (C.descend b frontier t).answer = .nothing) : Done (C.descend b frontier t).state := by
  unfold descend at hn ⊢
  split at hn
  · rename_i hopen
    rw [if_pos hopen]
    rcases Outcome.nothing_andThen hn with ⟨ha, -⟩ | ⟨_, -, heq⟩
    · exact (expand_ne_nothing _ _ _ ha).elim
    · rw [heq] at hn ⊢
      split at hn
      · simp at hn
      · split at hn
        · simp at hn
        · exact done_finish ‹_› _
  · rename_i hclosed
    rw [if_neg hclosed]
    exact done_finish hb t

theorem done_pull {S : Scanner} {t : Token} (hn : (C.pull S b t).answer = .nothing) :
    Done (C.pull S b t).state := by
  unfold pull at hn ⊢
  split at hn
  · simp at hn
  · rename_i hb
    split at hn
    · rename_i hfinished
      rw [if_pos hfinished]
      exact ⟨hfinished, queue_of_show? hb⟩
    · rename_i hfinished
      rw [if_neg hfinished]
      split at hn
      · exact done_descend hb hn
      · rcases Outcome.nothing_andThen hn with ⟨ha, -⟩ | ⟨rows, -, heq⟩
        · exact (Run.complete_ne_nothing _ ha).elim
        · rw [heq] at hn ⊢
          exact done_descend (by simp [show?, queue_of_show? hb]) hn

end Closure

theorem Scanner.halts_closure (S : Scanner) (C : Closure) : (S.closure C).Halts :=
  Spent.halts (P := Closure.Done)
    { turn := fun _ _ _ hcan => nomatch hcan
      clear := fun _ hb => hb
      pull := fun b t hb _ => by
        show (C.pull S { b with current := none } t).Misses _
        simp only [Closure.pull, Closure.show?, hb.1, hb.2, if_true]
        exact ⟨rfl, rfl, rfl⟩
      release := fun _ hb => hb }
    (fun _ _ _ hn => Closure.done_pull hn) fun _ hcan => nomatch hcan

/-! ## Plans -/

namespace Plan

variable {store : QuadStore}

mutual

/-- The scanner of a plan is over once it has found nothing, if that of the hole is. -/
theorem halts_on {hole : Roles} (hh : hole.scanner.Halts) :
    ∀ p : Plan, (p.rolesOn store hole).scanner.Halts
  | .fixed _ | .null | .all => Scanner.halts_ofList _
  | .input => hh
  | .and operands primary => by
      show (Roles.join (rolesOfAll store hole operands) (driver operands primary)).scanner.Halts
      unfold Roles.join
      cases hp : (rolesOfAll store hole operands)[driver operands primary]? with
      | none => exact Scanner.halts_ofList []
      | some R => exact (halts_all hh operands R (List.mem_of_getElem? hp)).join _ _
  | .or _ => Scanner.halts_union _
  | .not _ whole => (halts_on hh whole).sieve
  | .unique p => (halts_on hh p).sieve
  | .save p names => (halts_on hh p).naming names
  | .limit p n => (halts_on hh p).limit n
  | .skip p n => (halts_on hh p).skip n
  | .sort p => (p.rolesOn store hole).scanner.halts_sorted store
  | .step source .. => (halts_on hh source).step _
  | .filter p _ => (halts_on hh p).sieve
  | .map p f => (halts_on hh p).mapped store f
  | .constraint p _ => (halts_on hh p).sieve
  | .recursive p .. => (p.rolesOn store hole).scanner.halts_closure _

theorem halts_all {hole : Roles} (hh : hole.scanner.Halts) :
    ∀ ps : List Plan, ∀ R ∈ rolesOfAll store hole ps, R.scanner.Halts
  | [], R, hR => by simp [rolesOfAll] at hR
  | p :: ps, R, hR => by
      rcases List.mem_cons.1 hR with rfl | hR
      · exact halts_on hh p
      · exact halts_all hh ps R hR

end

/-- Exhausted, failed and closed cursors absorb all further calls. Whatever is called on a scanner
or an index of a plan, in whatever order, and wherever the calls are interrupted: the first error
stays, nothing is found after an error or after the end, and a scanner that has been moved on and
found nothing finds nothing any more. -/
theorem calls_absorbed (store : QuadStore) (p : Plan) :
    let scanner := (p.roles store).scanner.device
    let index := (p.roles store).index.device
    scanner.Absorbing ∧ index.Absorbing ∧
      ∀ past t future c,
        (scanner.call (scanner.after scanner.fresh past) (.advance () t)).found = false →
        (scanner.call (scanner.after scanner.fresh (past ++ .advance () t :: future)) c).found =
          false := by
  intro scanner index
  refine ⟨scanner.absorbing, index.absorbing, fun past t future c hn => ?_⟩
  have hhalts : (p.roles store).scanner.Halts := halts_on (Scanner.halts_ofList []) p
  rw [Device.after_append, Device.after_cons]
  exact hhalts.over hn future c

/-- A single result is found once, and not again after a turn. -/
theorem single_absorbed :
    let scanner := ((Plan.fixed (.ofList [.ofNat 0])).roles MemoryStore.empty.toStore).scanner.device
    let past := [.advance () .never]
    (scanner.call (scanner.after scanner.fresh (past ++ [.advance () .never, .nextPath .never]))
      (.advance () .never)).found = false :=
  (calls_absorbed MemoryStore.empty.toStore (.fixed (.ofList [.ofNat 0]))).2.2
    [.advance () .never] .never [.nextPath .never] (.advance () .never) rfl

end Plan

end GraphQuery
