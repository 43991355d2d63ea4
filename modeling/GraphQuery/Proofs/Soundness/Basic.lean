import GraphQuery.Proofs.Bindings
import GraphQuery.Proofs.Interruption.Basic

/-!
# Calls that stay within what is known

Of some handles it is accepted that they are known. A call is proper if what it finds is as it
should be, and if it does not fail by misuse, that is over a handle that the store did not issue or
with a cursor that was closed. It may fail in other ways, and be interrupted at any check. A scanner
is sound if it starts in a set of states in which known handles are shown and bound, and which no
call leaves, all calls being proper; so is an index that is probed for known handles.
-/

namespace GraphQuery

/-- Whether the error tells of a handle or a cursor that should not have been used. -/
def QueryError.isMisuse : QueryError → Bool
  | .unknownHandle _ | .closed => true
  | _ => false

abbrev Tags.Known (known : Handle → Prop) : Tags → Prop :=
  Tags.Every fun _ h => known h

def RowsKnown (known : Handle → Prop) (rows : List Row) : Prop :=
  ∀ r ∈ rows, known r.handle ∧ ∀ t ∈ r.sets, t.Known known

def Answer.Proper {α : Type} (value : α → Prop) : Answer α → Prop
  | .found a => value a
  | .nothing => True
  | .failed e => e.isMisuse = false

/-- The answer is proper, and the state left behind is as it should be. -/
structure Outcome.Proper {α σ : Type} (value : α → Prop) (state : σ → Prop) (o : Outcome α σ) :
    Prop where
  answer : o.answer.Proper value
  state : state o.state

theorem Token.not_misuse_of_check {t t' : Token} {e : QueryError} (h : t.check = (some e, t')) :
    e.isMisuse = false := by
  obtain ⟨htrip, -⟩ := Prod.mk.inj h
  unfold trip? at htrip
  split at htrip
  · exact Option.some.inj htrip ▸ rfl
  · split at htrip
    · exact Option.some.inj htrip ▸ rfl
    · simp at htrip

namespace Outcome.Proper

variable {α β σ τ : Type} {V : α → Prop} {W : β → Prop} {P : σ → Prop} {Q : τ → Prop}
  {o : Outcome α σ}

theorem found (ho : o.Proper V P) {a : α} (ha : o.answer = .found a) : V a := by
  simpa [ha, Answer.Proper] using ho.answer

theorem failed (ho : o.Proper V P) {e : QueryError} (he : o.answer = .failed e) :
    e.isMisuse = false := by
  simpa [he, Answer.Proper] using ho.answer

theorem mono {V' : α → Prop} {P' : σ → Prop} (ho : o.Proper V P) (hV : ∀ a, V a → V' a)
    (hP : ∀ s, P s → P' s) : o.Proper V' P' := by
  refine ⟨?_, hP _ ho.state⟩
  cases ha : o.answer with
  | found a => exact hV a (ho.found ha)
  | nothing => trivial
  | failed e => exact ho.failed ha

theorem either {found : α → σ → Token → Outcome β τ} {nothing : σ → Token → Outcome β τ}
    {stay : QueryError → σ → τ} (ho : o.Proper V P)
    (hfound : ∀ a s t, V a → P s → (found a s t).Proper W Q)
    (hnothing : ∀ s t, P s → (nothing s t).Proper W Q) (hstay : ∀ e s, P s → Q (stay e s)) :
    (o.either found nothing stay).Proper W Q := by
  unfold Outcome.either
  split
  · exact hfound _ _ _ (ho.found ‹_›) ho.state
  · exact hnothing _ _ ho.state
  · exact ⟨ho.failed ‹_›, hstay _ _ ho.state⟩

theorem andThen {go : α → σ → Token → Outcome β τ} {stay : σ → τ} (ho : o.Proper V P)
    (hgo : ∀ a s t, V a → P s → (go a s t).Proper W Q) (hstay : ∀ s, P s → Q (stay s)) :
    (o.andThen go stay).Proper W Q := by
  unfold Outcome.andThen
  split
  · exact hgo _ _ _ (ho.found ‹_›) ho.state
  · exact ⟨trivial, hstay _ ho.state⟩
  · exact ⟨ho.failed ‹_›, hstay _ ho.state⟩

theorem inState {f : σ → τ} (ho : o.Proper V P) (hf : ∀ s, P s → Q (f s)) :
    (o.inState f).Proper V Q :=
  ⟨ho.answer, hf _ ho.state⟩

theorem mapValue {f : α → β} (ho : o.Proper V P) (hf : ∀ a, V a → W (f a)) :
    (o.mapValue f).Proper W P := by
  refine ⟨?_, ho.state⟩
  unfold Outcome.mapValue
  cases ha : o.answer with
  | found a => exact hf a (ho.found ha)
  | nothing => trivial
  | failed e => exact ho.failed ha

theorem check {f : Token → Outcome α σ} {s : QueryError → σ} (hs : ∀ e, P (s e))
    (hf : ∀ t, (f t).Proper V P) (t : Token) :
    Outcome.Proper V P
      (match t.check with
      | (some e, t) => ⟨.failed e, s e, t⟩
      | (none, t) => f t) := by
  split
  · exact ⟨Token.not_misuse_of_check ‹_›, hs _⟩
  · exact hf _

end Outcome.Proper

structure Guarded.Proper {β : Type} (P : β → Prop) (s : Guarded β) : Prop where
  isOpen : s.status.closed = false
  error : ∀ e, s.status.error = some e → e.isMisuse = false
  body : P s.body

namespace Guarded.Proper

variable {α β : Type} {V : α → Prop} {P : β → Prop} {s : Guarded β}

theorem fail (hs : s.Proper P) {e : QueryError} (he : e.isMisuse = false) {b : β} (hb : P b) :
    Proper P ⟨s.status.fail e, b⟩ := by
  refine ⟨hs.isOpen, fun e' he' => ?_, hb⟩
  cases herror : s.status.error with
  | none =>
      simp only [Status.fail, herror, Option.orElse_eq_orElse, Option.orElse_none,
        Option.some.injEq] at he'
      exact he' ▸ he
  | some e₀ => exact hs.error e' (by simpa [Status.fail, herror] using he')

/-- An open guard refuses with what it has recorded, or when the token trips. -/
theorem not_misuse_of_refuse? (hs : s.Proper P) {t t' : Token} {e : QueryError}
    (h : s.status.refuse? t = (some e, t')) : e.isMisuse = false := by
  unfold Status.refuse? at h
  cases herror : s.status.error with
  | some e₀ =>
      simp only [herror, Prod.mk.injEq, Option.some.injEq] at h
      exact hs.error e (herror.trans (congrArg some h.1))
  | none =>
      simp only [herror, hs.isOpen, Bool.false_eq_true, if_false] at h
      exact Token.not_misuse_of_check h

theorem attempt {act : β → Token → Outcome α β} (hs : s.Proper P)
    (hact : ∀ t, (act s.body t).Proper V P) (t : Token) :
    (s.attempt t act).Proper V (Proper P) := by
  unfold Guarded.attempt
  split
  · rename_i e t' hrefuse
    have he := hs.not_misuse_of_refuse? hrefuse
    exact ⟨he, hs.fail he hs.body⟩
  · rename_i t' hrefuse
    have ho := hact t'
    dsimp only
    cases ha : (act s.body t').answer with
    | found a => exact ⟨ho.found ha, hs.isOpen, hs.error, ho.state⟩
    | nothing => exact ⟨trivial, hs.isOpen, hs.error, ho.state⟩
    | failed e => exact ⟨ho.failed ha, hs.fail (ho.failed ha) ho.state⟩

end Guarded.Proper

theorem Run.complete_cons {α σ : Type} (r : Run α σ) (a : α) :
    ({ r with items := a :: r.items } : Run α σ).complete = r.complete.mapValue (a :: ·) := by
  unfold Run.complete Outcome.mapValue
  cases r.error <;> rfl

variable {known : Handle → Prop}

/-! ## Cursors -/

/-- In these bodies known handles are shown and bound, and turns are proper and stay in them. -/
structure Cursor.Keeps (known : Handle → Prop) (C : Cursor) (P : C.Body → Prop) : Prop where
  shown : ∀ b h, P b → C.shown b = some h → known h
  binds : ∀ b, P b → (C.binds b).Known known
  turn : ∀ b t, P b → (C.turn b t).Proper (fun _ => True) P

structure Cursor.Confines (known : Handle → Prop) (C : Cursor) (F : C.State → Prop) : Prop where
  result : ∀ s h, F s → C.result s = some h → known h
  tags : ∀ s, F s → (C.tags s).Known known
  nextPath : ∀ s t, F s → (C.nextPath s t).Proper (fun _ => True) F

namespace Cursor

variable {C : Cursor} {F : C.State → Prop}

/-- What is kept by the body is kept behind the guard. -/
theorem Keeps.confines {P : C.Body → Prop} (hC : C.Keeps known P) :
    C.Confines known (Guarded.Proper P) where
  result s h hs := hC.shown s.body h hs.body
  tags s hs := hC.binds s.body hs.body
  nextPath s t hs := by
    unfold Cursor.nextPath
    split
    · exact hs.attempt (fun t => hC.turn s.body t hs.body) t
    · exact ⟨trivial, hs⟩

theorem Confines.alternates (hC : C.Confines known F) {s : C.State} (hs : F s) (t : Token) :
    (C.alternates s t).complete.Proper (fun sets => ∀ u ∈ sets, u.Known known) F := by
  induction s using C.paths_end.induction generalizing t with
  | _ s ih =>
      have hn := hC.nextPath s t hs
      rw [Robust.complete_alternates]
      unfold Outcome.either
      split
      · rename_i u hu
        refine (ih _ ⟨t, hu, rfl⟩ hn.state _).mapValue fun sets hsets => ?_
        exact List.forall_mem_cons.2 ⟨hC.tags s hs, hsets⟩
      · exact ⟨by simpa [Answer.Proper] using hC.tags s hs, hn.state⟩
      · exact ⟨hn.failed ‹_›, hn.state⟩

end Cursor

/-! ## Scanners -/

structure Scanner.Keeps (known : Handle → Prop) (S : Scanner) (P : S.Body → Prop) : Prop
    extends S.toCursor.Keeps known P where
  clear : ∀ b, P b → P (S.clear b)
  pull : ∀ b t, P b → (S.pull b t).Proper known P

structure Scanner.Confines (known : Handle → Prop) (S : Scanner) (F : S.State → Prop) : Prop
    extends S.toCursor.Confines known F where
  next : ∀ s t, F s → (S.next s t).Proper known F

namespace Scanner

variable {S : Scanner} {F : S.State → Prop}

theorem Keeps.confines {P : S.Body → Prop} (hS : S.Keeps known P) :
    S.Confines known (Guarded.Proper P) where
  toConfines := hS.toKeeps.confines
  next s t hs := by
    unfold Scanner.next
    split
    · have hclear : P (S.clear s.body) := hS.clear s.body hs.body
      exact Guarded.Proper.attempt (s := (⟨s.status, S.clear s.body⟩ : S.State))
        ⟨hs.isOpen, hs.error, hclear⟩ (fun t => hS.pull _ t hclear) t
    · exact ⟨trivial, hs⟩

def Proper (known : Handle → Prop) (S : Scanner) (s : S.State) : Prop :=
  ∃ F, S.Confines known F ∧ F s

def Sound (known : Handle → Prop) (S : Scanner) : Prop :=
  S.Proper known S.fresh

theorem Keeps.sound {P : S.Body → Prop} (hS : S.Keeps known P) (hstart : P S.start) :
    S.Sound known :=
  ⟨_, hS.confines, rfl, by simp [Cursor.fresh], hstart⟩

/-- No call leaves the states from which the scanner keeps to what is known. -/
theorem confines_proper (S : Scanner) : S.Confines known (S.Proper known) where
  result := fun s h ⟨_, hF, hs⟩ => hF.result s h hs
  tags := fun s ⟨_, hF, hs⟩ => hF.tags s hs
  nextPath := fun s t ⟨F, hF, hs⟩ => (hF.nextPath s t hs).mono (fun _ h => h) fun _ h => ⟨F, hF, h⟩
  next := fun s t ⟨F, hF, hs⟩ => (hF.next s t hs).mono (fun _ h => h) fun _ h => ⟨F, hF, h⟩

/-- What a proper judge makes of the results is proper. -/
theorem Confines.sift {α τ : Type} {V : α → Prop} {Q : τ → Prop}
    {judge : Handle → τ → Token → Outcome α τ} (hS : S.Confines known F)
    (hj : ∀ h x t, known h → Q x → (judge h x t).Proper V Q) {s : S.State} {x : τ} (hs : F s)
    (hx : Q x) (t : Token) : (S.sift judge s x t).Proper V fun p => F p.1 ∧ Q p.2 := by
  fun_induction Scanner.sift S judge s x t with
  | case1 s x t o ho => exact ⟨trivial, (hS.next s t hs).state, hx⟩
  | case2 s x t o e ho => exact ⟨(hS.next s t hs).failed ho, (hS.next s t hs).state, hx⟩
  | case3 s x t o h ho v a hv =>
      have hn := hS.next s t hs
      have hjudged := hj h x o.token (hn.found ho) hx
      exact ⟨hjudged.found hv, hn.state, hjudged.state⟩
  | case4 s x t o h ho v e hv =>
      have hn := hS.next s t hs
      have hjudged := hj h x o.token (hn.found ho) hx
      exact ⟨hjudged.failed hv, hn.state, hjudged.state⟩
  | case5 s x t o h ho v hv e t' hcheck =>
      have hn := hS.next s t hs
      exact ⟨Token.not_misuse_of_check hcheck, hn.state, (hj h x o.token (hn.found ho) hx).state⟩
  | case6 s x t o h ho v hv t' hcheck ih =>
      have hn := hS.next s t hs
      exact ih hn.state (hj h x o.token (hn.found ho) hx).state

/-- The rows of a drain are known, if whoever vets them has no objection to known handles. -/
theorem Confines.drain {vet : Handle → Option QueryError} (hS : S.Confines known F)
    (hvet : ∀ h, known h → vet h = none) {s : S.State} (hs : F s) (t : Token) :
    (S.drain vet s t).complete.Proper (RowsKnown known) F := by
  fun_induction Scanner.drain S vet s t with
  | case1 s t o ho =>
      exact ⟨by simp [Run.complete, Answer.Proper, RowsKnown], (hS.next s t hs).state⟩
  | case2 s t o e ho => exact ⟨(hS.next s t hs).failed ho, (hS.next s t hs).state⟩
  | case3 s t o h ho e he => simp [hvet h ((hS.next s t hs).found ho)] at he
  | case4 s t o h ho hv a e he =>
      have ha : a.complete.Proper _ F := hS.alternates (hS.next s t hs).state o.token
      have hcomplete : a.complete.answer = .failed e := by simp [Run.complete, he]
      exact ⟨ha.failed hcomplete, ha.state⟩
  | case5 s t o h ho hv a he r ih =>
      have hn := hS.next s t hs
      have ha : a.complete.Proper _ F := hS.alternates hn.state o.token
      have hcomplete : a.complete.answer = .found a.items := by simp [Run.complete, he]
      rw [Run.complete_cons]
      refine (ih ha.state).mapValue fun rows hrows => ?_
      exact List.forall_mem_cons.2 ⟨⟨hn.found ho, ha.found hcomplete⟩, hrows⟩

end Scanner

/-! ## Indexes -/

structure Index.Keeps (known : Handle → Prop) (I : Index) (P : I.Body → Prop) : Prop
    extends I.toCursor.Keeps known P where
  aim : ∀ h b, known h → P b → P (I.aim h b)
  probe : ∀ h b t, known h → P b → (I.probe h b t).Proper (fun _ => True) P

structure Index.Confines (known : Handle → Prop) (I : Index) (F : I.State → Prop) : Prop
    extends I.toCursor.Confines known F where
  contains : ∀ h s t, known h → F s → (I.contains h s t).Proper (fun _ => True) F

namespace Index

variable {I : Index} {F : I.State → Prop}

theorem Keeps.confines {P : I.Body → Prop} (hI : I.Keeps known P) :
    I.Confines known (Guarded.Proper P) where
  toConfines := hI.toKeeps.confines
  contains h s t hh hs :=
    have haim : P (I.aim h s.body) := hI.aim h s.body hh hs.body
    Guarded.Proper.attempt (s := (⟨s.status, I.aim h s.body⟩ : I.State))
      ⟨hs.isOpen, hs.error, haim⟩ (fun t => hI.probe h _ t hh haim) t

def Proper (known : Handle → Prop) (I : Index) (s : I.State) : Prop :=
  ∃ F, I.Confines known F ∧ F s

def Sound (known : Handle → Prop) (I : Index) : Prop :=
  I.Proper known I.fresh

theorem Keeps.sound {P : I.Body → Prop} (hI : I.Keeps known P) (hstart : P I.start) :
    I.Sound known :=
  ⟨_, hI.confines, rfl, by simp [Cursor.fresh], hstart⟩

theorem confines_proper (I : Index) : I.Confines known (I.Proper known) where
  result := fun s h ⟨_, hF, hs⟩ => hF.result s h hs
  tags := fun s ⟨_, hF, hs⟩ => hF.tags s hs
  nextPath := fun s t ⟨F, hF, hs⟩ => (hF.nextPath s t hs).mono (fun _ h => h) fun _ h => ⟨F, hF, h⟩
  contains := fun h s t hh ⟨F, hF, hs⟩ =>
    (hF.contains h s t hh hs).mono (fun _ h => h) fun _ h => ⟨F, hF, h⟩

end Index

/-- Both cursors of a plan keep to what is known. -/
structure Roles.Sound (known : Handle → Prop) (R : Roles) : Prop where
  scanner : R.scanner.Sound known
  index : R.index.Sound known

end GraphQuery
