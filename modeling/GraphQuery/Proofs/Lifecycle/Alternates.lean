import GraphQuery.Plan.Roles
import GraphQuery.Proofs.Lifecycle.History
import GraphQuery.Store.Memory

/-!
# Turning from one binding set to the next

A cursor that has found a handle shows it for as long as it is only turned, and a turn that finds
nothing leaves it at the last binding set. The exception is an index that is probed as a union. It
remembers the branch that it shows; the turn past the last branch makes it forget that, and with it
the handle.
-/

namespace GraphQuery

namespace Listing

variable {ρ : Type} {b : Listing ρ} {t : Token}

theorem current_turn (b : Listing ρ) (t : Token) : (b.turn t).state.current = b.current := by
  unfold turn
  split <;> rfl

theorem state_turn (hn : (b.turn t).answer.isFound = false) : (b.turn t).state = b := by
  unfold turn at hn ⊢
  split
  · simp_all [Answer.isFound]
  · rfl

end Listing

namespace Combining

variable {ρ : Type} {b : Combining ρ} {t : Token}

theorem current_turn (b : Combining ρ) (t : Token) : (b.turn t).state.current = b.current := by
  unfold turn
  split <;> rfl

theorem state_turn (hn : (b.turn t).answer.isFound = false) : (b.turn t).state = b := by
  unfold turn at hn ⊢
  split
  · simp_all [Answer.isFound]
  · rfl

end Combining

namespace Cursor

variable {C : Cursor}

/-- The state after a turn with each of these tokens. -/
def turned (C : Cursor) (s : C.State) (turns : List Token) : C.State :=
  turns.foldl (fun s t => (C.nextPath s t).state) s

def allFound (C : Cursor) (s : C.State) : List Token → Bool
  | [] => true
  | t :: turns => (C.nextPath s t).answer.isFound && C.allFound (C.nextPath s t).state turns

/-! ## Steady cursors -/

/-- Turns keep the handle, and those that find nothing keep the binding set. -/
structure Steady (C : Cursor) : Prop where
  result : ∀ s t, C.result (C.nextPath s t).state = C.result s
  tags : ∀ s t, (C.nextPath s t).answer.isFound = false →
    C.tags (C.nextPath s t).state = C.tags s

theorem Steady.of_turn
    (hshown : ∀ b t, C.canTurn b = true → C.shown (C.turn b t).state = C.shown b)
    (hbinds : ∀ b t, C.canTurn b = true → (C.turn b t).answer.isFound = false →
      C.binds (C.turn b t).state = C.binds b) : C.Steady where
  result s t := by
    rcases C.nextPath_cases s t with ⟨-, h⟩ | ⟨e, -, hbody⟩ | ⟨t', hcan, -, hbody⟩
    · rw [h]
    · exact congrArg C.shown hbody
    · exact (congrArg C.shown hbody).trans (hshown s.body t' hcan)
  tags s t hn := by
    rcases C.nextPath_cases s t with ⟨-, h⟩ | ⟨e, -, hbody⟩ | ⟨t', hcan, ha, hbody⟩
    · rw [h]
    · exact congrArg C.binds hbody
    · exact (congrArg C.binds hbody).trans (hbinds s.body t' hcan (ha ▸ hn))

theorem Steady.of_unturned (hcan : ∀ b, C.canTurn b = false) : C.Steady :=
  .of_turn (fun b _ h => by simp [hcan b] at h) fun b _ h => by simp [hcan b] at h

theorem Steady.result_turned (hC : C.Steady) (s : C.State) (turns : List Token) :
    C.result (C.turned s turns) = C.result s := by
  induction turns generalizing s with
  | nil => rfl
  | cons t turns ih => exact (ih (C.nextPath s t).state).trans (hC.result s t)

theorem steady_listing {ρ : Type} (start : ρ) (canTurn : Listing ρ → Bool)
    (release : Listing ρ → Listing ρ) : (Cursor.listing start canTurn release).Steady :=
  .of_turn (fun b t _ => Listing.current_turn b t) fun _ _ _ hn =>
    congrArg _ (Listing.state_turn hn)

theorem steady_combining {ρ : Type} (sources : ρ) (close : ρ → ρ) :
    (Cursor.combining sources close).Steady :=
  .of_turn (fun b t _ => Combining.current_turn b t) fun _ _ _ hn =>
    congrArg _ (Combining.state_turn hn)

theorem Steady.beside (hC : C.Steady) {κ : Type} (memory : κ) (forget : κ → κ) :
    (C.beside memory forget).Steady :=
  .of_turn (fun b t _ => hC.result b.1 t) fun b t _ hn => hC.tags b.1 t hn

theorem Steady.naming (hC : C.Steady) (names : List String) : (C.naming names).Steady :=
  .of_turn (fun s t _ => hC.result s t) fun s t _ hn => by
    have hn : (C.nextPath s t).answer.isFound = false := hn
    simp only [Cursor.naming, hC.result s t, hC.tags s t hn]

/-- The handle is shown, and it still is when all binding sets have been taken. Then the cursor
shows the last of them. -/
def RestsAt (C : Cursor) (s : C.State) (h : Handle) : Prop :=
  C.result s = some h ∧ ∀ t,
    C.result (C.alternates s t).state = some h ∧
      (C.alternates s t).items.getLast? = some (C.tags (C.alternates s t).state)

theorem Steady.result_alternates (hC : C.Steady) (s : C.State) (t : Token) :
    C.result (C.alternates s t).state = C.result s := by
  fun_induction Cursor.alternates C s t with
  | case1 s t o u hu r ih => exact ih.trans (hC.result s t)
  | case2 s t => exact hC.result s t
  | case3 s t => exact hC.result s t

theorem Steady.getLast?_alternates (hC : C.Steady) (s : C.State) (t : Token) :
    (C.alternates s t).items.getLast? = some (C.tags (C.alternates s t).state) := by
  have hlast {s : C.State} {t : Token} (ha : (C.nextPath s t).answer.isFound = false) :
      [C.tags s].getLast? = some (C.tags (C.nextPath s t).state) := by
    rw [hC.tags s t ha]
    rfl
  fun_induction Cursor.alternates C s t with
  | case1 s t o u hu r ih => simp [List.getLast?_cons, r, ih]
  | case2 s t o ho => exact hlast (congrArg Answer.isFound ho)
  | case3 s t o e ho => exact hlast (congrArg Answer.isFound ho)

theorem Steady.restsAt (hC : C.Steady) {s : C.State} {h : Handle} (hs : C.result s = some h) :
    C.RestsAt s h :=
  ⟨hs, fun t => ⟨(hC.result_alternates s t).trans hs, hC.getLast?_alternates s t⟩⟩

/-! ## Cursors that run out -/

/-- Turns that find something keep the handle, and the first that finds nothing leaves none. One that
fails may do either. -/
structure RunsOut (C : Cursor) : Prop where
  found : ∀ s t, (C.nextPath s t).answer.isFound = true →
    C.result (C.nextPath s t).state = C.result s
  nothing : ∀ s t, (C.nextPath s t).answer = .nothing → C.result (C.nextPath s t).state = none
  gone : ∀ s t, C.result s = none → C.result (C.nextPath s t).state = none

theorem RunsOut.of_turn (hcan : ∀ b, C.canTurn b = false → C.shown b = none)
    (hfound : ∀ b t, (C.turn b t).answer.isFound = true → C.shown (C.turn b t).state = C.shown b)
    (hnothing : ∀ b t, (C.turn b t).answer = .nothing → C.shown (C.turn b t).state = none)
    (hgone : ∀ b t, C.shown b = none → C.shown (C.turn b t).state = none) : C.RunsOut where
  found s t hf := by
    rcases C.nextPath_cases s t with ⟨-, h⟩ | ⟨e, -, hbody⟩ | ⟨t', -, ha, hbody⟩
    · rw [h]
    · exact congrArg C.shown hbody
    · exact (congrArg C.shown hbody).trans (hfound s.body t' (ha ▸ hf))
  nothing s t hn := by
    rcases C.nextPath_cases s t with ⟨hclosed, h⟩ | ⟨e, ha, -⟩ | ⟨t', -, ha, hbody⟩
    · exact h ▸ hcan s.body hclosed
    · simp [ha] at hn
    · exact (congrArg C.shown hbody).trans (hnothing s.body t' (ha ▸ hn))
  gone s t hs := by
    rcases C.nextPath_cases s t with ⟨-, h⟩ | ⟨e, -, hbody⟩ | ⟨t', -, -, hbody⟩
    · exact h ▸ hs
    · exact (congrArg C.shown hbody).trans hs
    · exact (congrArg C.shown hbody).trans (hgone s.body t' hs)

theorem RunsOut.result_turned_none (hC : C.RunsOut) {s : C.State} (hs : C.result s = none)
    (turns : List Token) : C.result (C.turned s turns) = none := by
  induction turns generalizing s with
  | nil => exact hs
  | cons t turns ih => exact ih (hC.gone s t hs)

theorem error_turned {s : C.State} {e : QueryError} (he : C.error s = some e)
    (turns : List Token) : C.error (C.turned s turns) = some e := by
  induction turns generalizing s with
  | nil => exact he
  | cons t turns ih => exact ih ((C.responds_nextPath s t).error he)

theorem error_of_failed {s : C.State} {t : Token} {e : QueryError}
    (ha : (C.nextPath s t).answer = .failed e) : C.error (C.nextPath s t).state = some e := by
  unfold nextPath at ha ⊢
  split
  · rw [if_pos ‹_›] at ha
    exact Guarded.error_of_failed ha
  · rw [if_neg ‹_›] at ha
    simp at ha

theorem RunsOut.result_turned (hC : C.RunsOut) {s : C.State} {turns : List Token}
    (hall : C.allFound s turns = true) : C.result (C.turned s turns) = C.result s := by
  induction turns generalizing s with
  | nil => rfl
  | cons t turns ih =>
      obtain ⟨hf, hall⟩ := Bool.and_eq_true_iff.1 hall
      exact (ih hall).trans (hC.found s t hf)

/-- Unless a turn fails, the first that finds nothing leaves no handle, for good. -/
theorem RunsOut.result_turned_of_miss (hC : C.RunsOut) {s : C.State} {turns : List Token}
    (hall : C.allFound s turns = false) (he : C.error (C.turned s turns) = none) :
    C.result (C.turned s turns) = none := by
  induction turns generalizing s with
  | nil => simp [allFound] at hall
  | cons t turns ih =>
      cases ha : (C.nextPath s t).answer with
      | found u => exact ih (by simpa [allFound, ha, Answer.isFound] using hall) he
      | nothing => exact hC.result_turned_none (hC.nothing s t ha) turns
      | failed e =>
          -- A failure is still recorded in the end.
          have herror := error_turned (error_of_failed ha) turns
          exact (nomatch he.symm.trans herror)

theorem RunsOut.beside (hC : C.RunsOut) {κ : Type} (memory : κ) (forget : κ → κ) :
    (C.beside memory forget).RunsOut :=
  .of_turn (fun _ h => nomatch h) (fun b t hf => hC.found b.1 t hf)
    (fun b t hn => hC.nothing b.1 t hn) fun b t hb => hC.gone b.1 t hb

theorem RunsOut.naming (hC : C.RunsOut) (names : List String) : (C.naming names).RunsOut :=
  .of_turn (fun _ h => nomatch h) hC.found hC.nothing hC.gone

end Cursor

/-! ## Scanners -/

/-- A scanner shows what it finds, until it moves on. -/
structure Scanner.Stays (S : Scanner) : Prop where
  lands : ∀ s t h, (S.next s t).answer = .found h → S.result (S.next s t).state = some h
  steady : S.toCursor.Steady

namespace Scanner

variable {S : Scanner}

theorem Stays.of_pull (hS : S.toCursor.Steady)
    (hpull : ∀ b t h, (S.pull b t).answer = .found h → S.shown (S.pull b t).state = some h) :
    S.Stays where
  steady := hS
  lands s t h hf := by
    rcases S.next_cases s t with ⟨-, h'⟩ | ⟨e, ha, -⟩ | ⟨t', -, ha, hbody⟩
    · simp [h'] at hf
    · simp [ha] at hf
    · exact (congrArg S.shown hbody).trans (hpull _ t' h (ha ▸ hf))

theorem stays_ofList (handles : List Handle) : (ofList handles).Stays := by
  refine .of_pull (.of_unturned fun _ => rfl) fun b t h hf => ?_
  simp only [ofList] at hf ⊢
  split at hf <;> simp_all

theorem Stays.sift {κ : Type} {judge : Handle → κ → Token → Outcome Unit κ} (hS : S.Stays)
    {s : S.State} {x : κ} {t : Token} {h : Handle}
    (hf : (S.sift (accepting judge) s x t).answer = .found h) :
    S.result (S.sift (accepting judge) s x t).state.1 = some h := by
  fun_induction Scanner.sift S (accepting judge) s x t with
  | case3 s x t o h' ho v a hv =>
      have ha : h' = h := by
        cases hj : (judge h' x o.token).answer <;>
          simp_all [v, accepting, Outcome.mapValue, Answer.map]
      exact ha ▸ hS.lands s t h' ho
  | case6 s x t o h' ho v hv t' hcheck ih => exact ih hf
  | _ => simp at hf

theorem Stays.sieve {κ : Type} {memory : κ} {forget : κ → κ}
    {judge : Handle → κ → Token → Outcome Unit κ} (hS : S.Stays) :
    (S.sieve memory forget judge).Stays :=
  .of_pull (hS.steady.beside memory forget) fun _ _ _ hf => hS.sift hf

theorem Stays.naming (hS : S.Stays) (names : List String) : (S.naming names).Stays :=
  .of_pull (hS.steady.naming names) hS.lands

theorem Stays.limit (hS : S.Stays) (n : Nat) : (S.limit n).Stays :=
  .of_pull
    (.of_turn (fun b t _ => hS.steady.result b.source t) fun b t _ => hS.steady.tags b.source t)
    fun b t h hf => hS.lands b.source t h hf

theorem Stays.advancePast (hS : S.Stays) : ∀ {n : Nat} {s : S.State} {t : Token} {h : Handle},
    (S.advancePast n s t).answer = .found h →
      S.result (S.advancePast n s t).state.source = some h
  | 0, s, t, h, hf => hS.lands s t h hf
  | n + 1, s, t, h, hf => by
      unfold Scanner.advancePast at hf ⊢
      obtain ⟨h', -, heq⟩ := Outcome.found_andThen hf
      rw [heq] at hf ⊢
      split at hf
      · simp at hf
      · exact hS.advancePast hf

theorem Stays.skip (hS : S.Stays) (n : Nat) : (S.skip n).Stays :=
  .of_pull
    (.of_turn (fun b t _ => hS.steady.result b.source t) fun b t _ => hS.steady.tags b.source t)
    fun _ _ _ hf => hS.advancePast hf

theorem Stays.mapped (hS : S.Stays) (store : QuadStore) (f : Value → Except String Value) :
    (S.mapped store f).Stays :=
  .of_pull (.of_turn (fun _ _ _ => rfl) fun b t _ => hS.steady.tags b.source t) fun b t h hf => by
    have hf : (S.sift (fun h x t => ⟨imageOf store f h, x, t⟩) b.source () t).answer = .found h :=
      hf
    show Answer.value? _ = some h
    rw [hf]
    rfl

theorem stays_sorted (S : Scanner) (store : QuadStore) : (S.sorted store).Stays := by
  have hrow {rows : List Row} {b : Listing (Option (List Row))} {t : Token} {h : Handle}
      (hf : (pullRow rows b t).answer = .found h) :
      (pullRow rows b t).state.current = some h := by
    cases rows <;> simp_all [pullRow]
  refine .of_pull (Cursor.steady_listing _ _ _) fun b t h hf => ?_
  change (S.pullSorted store b t).answer = .found h at hf
  show (S.pullSorted store b t).state.current = some h
  unfold pullSorted at hf ⊢
  split at hf
  · exact hrow hf
  · obtain ⟨rows, -, heq⟩ := Outcome.found_andThen hf
    rw [heq] at hf ⊢
    exact hrow hf

theorem stays_join (S : Scanner) (position : Nat) (Is : List Index) :
    (S.join position Is).Stays := by
  have hsteady : (S.join position Is).toCursor.Steady := by
    simp only [join]
    exact Cursor.steady_combining _ _
  refine .of_pull hsteady fun b t h hf => ?_
  change (S.pullJoined Is position b t).answer = .found h at hf
  show (S.pullJoined Is position b t).state.current = some h
  unfold pullJoined at hf ⊢
  obtain ⟨h', -, heq⟩ := Outcome.found_andThen hf
  rw [heq] at hf ⊢
  obtain ⟨sets, -, heq⟩ := Outcome.found_andThen hf
  rw [heq] at hf ⊢
  exact congrArg some (Answer.found.inj hf)

theorem stays_step (S : Scanner) (W : Walk) : (S.step W).Stays := by
  have hsteady : (S.step W).toCursor.Steady := by
    simp only [step]
    exact Cursor.steady_combining _ _
  refine .of_pull hsteady fun b t h hf => ?_
  change (pullWalked b t).answer = .found h at hf
  show (pullWalked b t).state.current = some h
  unfold pullWalked at hf ⊢
  obtain ⟨r, -, heq⟩ := Outcome.found_andThen hf
  rw [heq] at hf ⊢
  exact congrArg some (Answer.found.inj hf)

end Scanner

namespace Closure

variable {C : Closure} {b : ClosureState} {t : Token} {h : Handle}

theorem current_of_show? {b' : ClosureState} (hb : show? b = some (h, b')) :
    b'.current.map Prod.fst = some h := by
  cases hqueue : b.queue with
  | nil => simp [show?, hqueue] at hb
  | cons p queue =>
      simp only [show?, hqueue, Option.some.injEq, Prod.mk.injEq] at hb
      obtain ⟨rfl, rfl⟩ := hb
      rfl

theorem finish_ne_found : (finish b t).answer ≠ .found h := by
  unfold finish
  split <;> simp

theorem current_descend {frontier : Reached} (hf : (C.descend b frontier t).answer = .found h) :
    (C.descend b frontier t).state.current.map Prod.fst = some h := by
  unfold descend at hf ⊢
  split at hf
  · rename_i hopen
    rw [if_pos hopen]
    obtain ⟨u, -, heq⟩ := Outcome.found_andThen hf
    rw [heq] at hf ⊢
    split at hf
    · simp at hf
    · split at hf
      · exact Answer.found.inj hf ▸ current_of_show? ‹_›
      · exact (finish_ne_found hf).elim
  · exact (finish_ne_found hf).elim

theorem current_pull {S : Scanner} (hf : (C.pull S b t).answer = .found h) :
    (C.pull S b t).state.current.map Prod.fst = some h := by
  unfold pull at hf ⊢
  split at hf
  · exact Answer.found.inj hf ▸ current_of_show? ‹_›
  · split at hf
    · simp at hf
    · rename_i hopen
      rw [if_neg hopen]
      split at hf
      · exact current_descend hf
      · obtain ⟨rows, -, heq⟩ := Outcome.found_andThen hf
        rw [heq] at hf ⊢
        exact current_descend hf

end Closure

theorem Scanner.stays_closure (S : Scanner) (C : Closure) : (S.closure C).Stays :=
  .of_pull (.of_unturned fun _ => rfl) fun _ _ _ hf => Closure.current_pull hf

namespace BranchState

theorem result_turn : ∀ {Ss : List Scanner}, (∀ S ∈ Ss, S.Stays) → ∀ (b : BranchState Ss) t,
    result Ss (turn Ss b t).state = result Ss b
  | [], _, _, _ => rfl
  | S :: _, hSs, .inl s, t => (hSs S (.head _)).steady.result s t
  | _ :: _, hSs, .inr b, t => result_turn (fun S hS => hSs S (.tail _ hS)) b t

theorem tags_turn : ∀ {Ss : List Scanner}, (∀ S ∈ Ss, S.Stays) → ∀ (b : BranchState Ss) t,
    (turn Ss b t).answer.isFound = false → tags Ss (turn Ss b t).state = tags Ss b
  | [], _, _, _, _ => rfl
  | S :: _, hSs, .inl s, t, hn => (hSs S (.head _)).steady.tags s t hn
  | _ :: _, hSs, .inr b, t, hn => tags_turn (fun S hS => hSs S (.tail _ hS)) b t hn

theorem result_pull : ∀ {Ss : List Scanner}, (∀ S ∈ Ss, S.Stays) → ∀ {b : BranchState Ss} {t h},
    (pull Ss b t).answer = .found h → result Ss (pull Ss b t).state = some h
  | [], _, _, _, _, hf => by simp [pull] at hf
  | S :: Ss, hSs, .inl s, t, h, hf => by
      rw [pull] at hf ⊢
      unfold pullThen at hf ⊢
      dsimp only at hf ⊢
      split at hf
      · exact Answer.found.inj hf ▸ (hSs S (.head _)).lands s t _ ‹_›
      · simp at hf
      · split at hf
        · simp at hf
        · exact result_pull (fun S hS => hSs S (.tail _ hS)) hf
  | _ :: _, hSs, .inr _, _, _, hf => result_pull (fun S hS => hSs S (.tail _ hS)) hf

end BranchState

theorem Scanner.stays_union {Ss : List Scanner} (hSs : ∀ S ∈ Ss, S.Stays) : (union Ss).Stays :=
  .of_pull
    (.of_turn (fun b t _ => BranchState.result_turn hSs b t) fun b t _ =>
      BranchState.tags_turn hSs b t)
    fun _ _ _ hf => BranchState.result_pull hSs hf

/-! ## Indexes -/

/-- An index shows the handle that it was found to hold, until it is moved; if it is probed as a
union, until it runs out. -/
structure Index.Stays (I : Index) (union : Bool) : Prop where
  lands : ∀ h s t, (I.contains h s t).answer = .found () →
    I.result (I.contains h s t).state = some h
  steady : union = false → I.toCursor.Steady
  runsOut : union = true → I.toCursor.RunsOut

namespace Index

variable {I : Index} {union : Bool}

theorem lands_of_probe
    (hprobe : ∀ h b t, (I.probe h (I.aim h b) t).answer = .found () →
      I.shown (I.probe h (I.aim h b) t).state = some h) (h : Handle) (s : I.State) (t : Token)
    (hf : (I.contains h s t).answer = .found ()) : I.result (I.contains h s t).state = some h := by
  have ⟨ha, hbody⟩ := Guarded.answer_attempt hf
  exact (congrArg I.shown hbody).trans (hprobe h s.body _ ha)

theorem Stays.of_steady (hI : I.toCursor.Steady)
    (hprobe : ∀ h b t, (I.probe h (I.aim h b) t).answer = .found () →
      I.shown (I.probe h (I.aim h b) t).state = some h) : I.Stays false :=
  ⟨lands_of_probe hprobe, fun _ => hI, fun h => nomatch h⟩

theorem stays_ofMem (mem : Handle → Bool) : (ofMem mem).Stays false := by
  refine .of_steady (.of_unturned fun _ => rfl) fun h b t hf => ?_
  simp only [ofMem] at hf ⊢
  split at hf <;> simp_all

theorem Stays.sieve {κ : Type} {memory : κ} {forget : κ → κ}
    {judge : Handle → κ → Token → Outcome Unit κ} (hI : I.Stays union) :
    (I.sieve memory forget judge).Stays union where
  lands := lands_of_probe fun h b t hf => by
    obtain ⟨_, -, heq⟩ := Outcome.found_andThen hf
    have hshown := congrArg (fun o => (I.sieve memory forget judge).shown o.state) heq
    exact hshown.trans (hI.lands h b.1 _ ((congrArg Outcome.answer heq).symm.trans hf))
  steady hu := (hI.steady hu).beside memory forget
  runsOut hu := (hI.runsOut hu).beside memory forget

theorem Stays.naming (hI : I.Stays union) (names : List String) :
    (I.naming names).Stays union where
  lands := lands_of_probe fun h s t hf => hI.lands h s t hf
  steady hu := (hI.steady hu).naming names
  runsOut hu := (hI.runsOut hu).naming names

theorem stays_recorded (S : Scanner) : S.recorded.Stays false := by
  refine .of_steady (Cursor.steady_listing _ _ _) fun h b t hf => ?_
  show ((S.recorded.probe h _ t).state : Listing (Option (List Row))).current = some h
  simp only [Scanner.recorded] at hf ⊢
  split at hf
  · split at hf <;> simp_all
  · obtain ⟨rows, -, heq⟩ := Outcome.found_andThen hf
    rw [heq] at hf ⊢
    split at hf <;> simp_all

theorem stays_join (Is : List Index) (first : Nat) : (join Is first).Stays false := by
  refine .of_steady (Cursor.steady_combining (GroupState.fresh Is) _) fun h b t hf => ?_
  obtain ⟨sets, -, heq⟩ := Outcome.found_andThen hf
  exact congrArg (fun o => (join Is first).shown o.state) heq

theorem stays_step (I : Index) (W : Walk) : (I.step W).Stays false := by
  refine .of_steady (Cursor.steady_listing _ _ _) fun h b t hf => ?_
  show ((I.step W).probe h _ t).state.current = some h
  simp only [Index.step] at hf ⊢
  split at hf <;> simp_all

end Index

namespace Search

variable {Is : List Index} (b : Search Is) (t : Token)

theorem shown_moveTo (h : Handle) (i : Nat) (g : GroupState Is) :
    (Index.union Is).shown (b.moveTo h i g t).state =
      if (b.moveTo h i g t).answer.isFound then b.candidate else none := by
  show (Option.bind (seek h i (Is.length - i) g t).answer.value? fun _ => b.candidate) =
    if ((seek h i (Is.length - i) g t).answer.map fun _ => ()).isFound then b.candidate else none
  cases (seek h i (Is.length - i) g t).answer <;> rfl

/-- A turn keeps the handle or finds nothing and leaves none. -/
theorem shown_turn :
    (Index.union Is).shown (b.turn t).state = (Index.union Is).shown b ∨
      (b.turn t).answer.isFound = false ∧ (Index.union Is).shown (b.turn t).state = none := by
  unfold turn
  split
  · rename_i i h hi hh
    have hb : (Index.union Is).shown b = some h := by simp [Index.union, hi, hh]
    dsimp only
    split
    · rw [shown_moveTo, hb, hh]
      cases ((b.moveTo h (i + 1) _ _).answer.isFound) with
      | true => exact .inl rfl
      | false => exact .inr ⟨rfl, rfl⟩
    · exact .inl rfl
  · exact .inl rfl

theorem shown_turn_nothing (hn : (b.turn t).answer = .nothing) :
    (Index.union Is).shown (b.turn t).state = none := by
  unfold turn at hn ⊢
  split
  · rename_i i h hi hh
    simp only [hi, hh] at hn
    dsimp only
    split at hn
    · rw [shown_moveTo, hn]
      rfl
    · exact (‹_ → False› hn).elim
  · rename_i hnone
    simp only [Index.union]
    cases hi : b.current with
    | none => rfl
    | some i =>
      cases hh : b.candidate with
      | none => rfl
      | some h => exact (hnone i h hi hh).elim

end Search

theorem Index.stays_union (Is : List Index) : (Index.union Is).Stays true where
  lands := lands_of_probe fun h b t hf => by
    let aimed : Search Is := ⟨b.branches, some h, none⟩
    have hf : (aimed.moveTo h 0 b.branches t).answer = .found () := hf
    show (union Is).shown (aimed.moveTo h 0 b.branches t).state = some h
    rw [Search.shown_moveTo, hf]
    rfl
  steady h := nomatch h
  runsOut _ := .of_turn
    (fun b hcan => by simp_all [Index.union])
    (fun b t hf => (Search.shown_turn b t).resolve_right fun h => by simp_all [Index.union])
    (fun b t hn => Search.shown_turn_nothing b t hn)
    fun b t hb => (Search.shown_turn b t).elim (fun h => h.trans hb) And.right

/-! ## Plans -/

namespace Plan

variable {store : QuadStore}

/-- Whether probes of the plan go to the index of a union. Other operators answer from a record of
their scan, or put the binding sets of their operands together themselves. -/
def probesUnion : Plan → Bool
  | .or _ => true
  | .not _ p | .save p _ | .sort p | .filter p _ | .constraint p _ => p.probesUnion
  | .limit p n | .skip p n => n = 0 && p.probesUnion
  | _ => false

mutual

theorem stays_scanner {hole : Roles} (hh : hole.scanner.Stays) :
    ∀ p : Plan, (p.rolesOn store hole).scanner.Stays
  | .fixed _ | .null | .all => Scanner.stays_ofList _
  | .input => hh
  | .and operands primary => by
      show (Roles.join (rolesOfAll store hole operands) (driver operands primary)).scanner.Stays
      unfold Roles.join
      split
      · exact Scanner.stays_ofList []
      · exact Scanner.stays_join _ _ _
  | .or operands => Scanner.stays_union fun S hS => by
      obtain ⟨R, hR, rfl⟩ := List.mem_map.1 hS
      exact stays_scanners hh operands R hR
  | .not _ whole => (stays_scanner hh whole).sieve
  | .unique p => (stays_scanner hh p).sieve
  | .save p names => (stays_scanner hh p).naming names
  | .limit p n => (stays_scanner hh p).limit n
  | .skip p n => (stays_scanner hh p).skip n
  | .sort p => (p.rolesOn store hole).scanner.stays_sorted store
  | .step source .. => (source.rolesOn store hole).scanner.stays_step _
  | .filter p _ => (stays_scanner hh p).sieve
  | .map p f => (stays_scanner hh p).mapped store f
  | .constraint p _ => (stays_scanner hh p).sieve
  | .recursive p .. => (p.rolesOn store hole).scanner.stays_closure _

theorem stays_scanners {hole : Roles} (hh : hole.scanner.Stays) :
    ∀ ps : List Plan, ∀ R ∈ rolesOfAll store hole ps, R.scanner.Stays
  | [], R, hR => by simp [rolesOfAll] at hR
  | p :: ps, R, hR => by
      rcases List.mem_cons.1 hR with rfl | hR
      · exact stays_scanner hh p
      · exact stays_scanners hh ps R hR

end

theorem stays_index {hole : Roles} (hh : hole.index.Stays false) :
    ∀ p : Plan, (p.rolesOn store hole).index.Stays p.probesUnion
  | .fixed _ | .null | .all => Index.stays_ofMem _
  | .input => hh
  | .and operands primary => by
      show (Roles.join (rolesOfAll store hole operands) (driver operands primary)).index.Stays false
      unfold Roles.join
      split
      · exact Index.stays_ofMem _
      · exact Index.stays_join _ _
  | .or _ => Index.stays_union _
  | .not _ whole => (stays_index hh whole).sieve
  | .unique _ => Index.stays_recorded _
  | .save p names => (stays_index hh p).naming names
  | .limit p n | .skip p n => by
      -- Without a bound the index is that of the operand, otherwise it has a record of the scan.
      by_cases hn : n = 0
      · simpa [rolesOn, probesUnion, hn] using stays_index hh p
      · simpa [rolesOn, probesUnion, hn] using Index.stays_recorded _
  | .sort p => stays_index hh p
  | .step source .. => (source.rolesOn store hole).index.stays_step _
  | .filter p _ => (stays_index hh p).sieve
  | .map _ _ => Index.stays_recorded _
  | .constraint p _ => (stays_index hh p).sieve
  | .recursive .. => Index.stays_recorded _

/-- The handle found is kept. Whatever was called before on a scanner or an index of a plan, once it
has found a handle it shows that handle after any number of turns, whatever each of them finds, and
when all binding sets are taken it is left at the last. Only an index that is probed as a union
shows the handle for no longer than each turn finds something: where no turn failed, the first that
found nothing has left it without. -/
theorem handle_kept (store : QuadStore) (p : Plan) :
    let scanner := (p.roles store).scanner
    let index := (p.roles store).index
    (∀ past t h turns,
      let o := scanner.next (scanner.device.after scanner.fresh past) t
      o.answer = .found h → scanner.RestsAt (scanner.turned o.state turns) h) ∧
    ∀ past h t turns,
      let o := index.contains h (index.device.after index.fresh past) t
      let s := index.turned o.state turns
      o.answer = .found () →
      (p.probesUnion = false → index.RestsAt s h) ∧
        (p.probesUnion = true →
          (index.allFound o.state turns = true → index.result s = some h) ∧
            (index.allFound o.state turns = false → index.error s = none →
              index.result s = none)) := by
  intro scanner index
  have hscanner : scanner.Stays := stays_scanner (Scanner.stays_ofList []) p
  have hindex : index.Stays p.probesUnion := stays_index (Index.stays_ofMem _) p
  constructor
  · intro past t h turns o hfound
    have ho : scanner.result o.state = some h := hscanner.lands _ t h hfound
    exact hscanner.steady.restsAt ((hscanner.steady.result_turned o.state turns).trans ho)
  · intro past h t turns o s hfound
    have ho : index.result o.state = some h := hindex.lands h _ t hfound
    refine ⟨fun hp => ?_, fun hp => ⟨fun hall => ?_, fun hall he => ?_⟩⟩
    · exact (hindex.steady hp).restsAt (((hindex.steady hp).result_turned o.state turns).trans ho)
    · exact ((hindex.runsOut hp).result_turned hall).trans ho
    · exact (hindex.runsOut hp).result_turned_of_miss hall he

def eitherWay : Plan :=
  .or [.fixed (.ofList [.ofNat 0]), .fixed (.ofList [.ofNat 0])]

theorem other_way_shown :
    let I := (eitherWay.roles MemoryStore.empty.toStore).index
    let o := I.contains (.ofNat 0) I.fresh .never
    o.answer = .found () ∧ I.result (I.turned o.state [.never]) = some (.ofNat 0) :=
  ⟨rfl, (((handle_kept MemoryStore.empty.toStore eitherWay).2 [] (.ofNat 0) .never [.never]
    rfl).2 rfl).1 rfl⟩

/-- Past the last branch the index of a union shows nothing, and no error tells why. -/
theorem no_way_left :
    let I := (eitherWay.roles MemoryStore.empty.toStore).index
    let o := I.contains (.ofNat 0) I.fresh .never
    let s := I.turned o.state [.never, .never]
    o.answer = .found () ∧ I.error s = none ∧ I.result s = none :=
  ⟨rfl, rfl, rfl⟩

end Plan

end GraphQuery
