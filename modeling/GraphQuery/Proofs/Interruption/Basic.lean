import GraphQuery.Cursor.Basic

/-!
# Calls that an interruption can only cut short

A call that a token interrupts either fails or has done exactly what it does under a token that
never trips: it cannot answer that there is nothing when there is something, nor the reverse. The
property is kept by everything calls are composed with, as long as the composition passes failures
on; so it is proved once for each way of composing, and cursors get it from their parts.
-/

namespace GraphQuery

def Outcome.either {α β σ τ : Type} (o : Outcome α σ) (found : α → σ → Token → Outcome β τ)
    (nothing : σ → Token → Outcome β τ) (stay : QueryError → σ → τ) : Outcome β τ :=
  match o.answer with
  | .found a => found a o.state o.token
  | .nothing => nothing o.state o.token
  | .failed e => ⟨.failed e, stay e o.state, o.token⟩

/-- Under any token the call fails or does what it does under the one that never trips. -/
structure Interruptible {α σ : Type} (call : Token → Outcome α σ) : Prop where
  never : (call .never).token = .never
  fails_or_agrees : ∀ t, (∃ e, (call t).answer = .failed e) ∨
    (call t).answer = (call .never).answer ∧ (call t).state = (call .never).state

namespace Interruptible

variable {α β σ τ : Type} {f : Token → Outcome α σ}

theorem congr {g : Token → Outcome α σ} (hf : Interruptible f) (h : ∀ t, g t = f t) :
    Interruptible g :=
  funext h ▸ hf

theorem pure (a : Answer α) (s : σ) : Interruptible fun t => ⟨a, s, t⟩ :=
  ⟨rfl, fun _ => .inr ⟨rfl, rfl⟩⟩

/-- Goes on from whatever a call answers, and passes its failures on. It is enough that the call
goes on interruptibly from where it comes to uninterrupted. -/
theorem bind {k : Answer α → σ → Token → Outcome β τ} (hf : Interruptible f)
    (hfail : ∀ e s t, (k (.failed e) s t).answer = .failed e)
    (hk : Interruptible (k (f .never).answer (f .never).state)) :
    Interruptible fun t => k (f t).answer (f t).state (f t).token := by
  refine ⟨?_, fun t => ?_⟩
  · rw [hf.never]
    exact hk.never
  · rcases hf.fails_or_agrees t with ⟨e, he⟩ | ⟨ha, hs⟩
    · rw [he]
      exact .inl ⟨e, hfail e _ _⟩
    · rw [ha, hs, hf.never]
      exact hk.fails_or_agrees _

theorem either (hf : Interruptible f) (found : α → σ → Token → Outcome β τ)
    (nothing : σ → Token → Outcome β τ) (stay : QueryError → σ → τ)
    (hfound : ∀ a, (f .never).answer = .found a → Interruptible (found a (f .never).state))
    (hnothing : Interruptible (nothing (f .never).state)) :
    Interruptible fun t => (f t).either found nothing stay := by
  refine bind (k := fun a s t => (⟨a, s, t⟩ : Outcome α σ).either found nothing stay) hf
    (fun _ _ _ => rfl) ?_
  cases ha : (f .never).answer with
  | found a => exact hfound a ha
  | nothing => exact hnothing
  | failed e => exact pure (.failed e) (stay e _)

theorem andThen {go : α → σ → Token → Outcome β τ} {stay : σ → τ} (hf : Interruptible f)
    (hgo : ∀ a, (f .never).answer = .found a → Interruptible (go a (f .never).state)) :
    Interruptible fun t => (f t).andThen go stay :=
  hf.either go (fun s t => ⟨.nothing, stay s, t⟩) (fun _ => stay) hgo (pure .nothing _)

theorem inState (hf : Interruptible f) (g : σ → τ) : Interruptible fun t => (f t).inState g :=
  bind (k := fun a s t => (⟨a, s, t⟩ : Outcome α σ).inState g) hf (fun _ _ _ => rfl) (pure _ (g _))

theorem mapValue (hf : Interruptible f) (g : α → β) : Interruptible fun t => (f t).mapValue g :=
  bind (k := fun a s t => (⟨a, s, t⟩ : Outcome α σ).mapValue g) hf (fun _ _ _ => rfl)
    (pure (Answer.map g _) _)

theorem check {s : QueryError → σ} (hf : Interruptible f) :
    Interruptible fun t =>
      match t.check with
      | (some e, t) => ⟨.failed e, s e, t⟩
      | (none, t) => f t := by
  refine ⟨hf.never, fun t => ?_⟩
  cases h : t.trip? with
  | some e => exact .inl ⟨e, by simp [Token.check, h]⟩
  | none => simpa [Token.check, h] using hf.fails_or_agrees t.spent

end Interruptible

/-! ## Behind the guard -/

namespace Guarded

variable {α β : Type} (act : β → Token → Outcome α β)

/-- In good standing the guard only checks the token, and records the failure of the body. -/
theorem attempt_open (b : β) (t : Token) :
    (⟨{}, b⟩ : Guarded β).attempt t act =
      match t.check with
      | (some e, t) => ⟨.failed e, ⟨Status.fail {} e, b⟩, t⟩
      | (none, t) =>
          (act b t).either (fun a b t => ⟨.found a, ⟨{}, b⟩, t⟩)
            (fun b t => ⟨.nothing, ⟨{}, b⟩, t⟩) fun e b => ⟨Status.fail {} e, b⟩ := by
  rcases hc : t.check with ⟨_ | e, t'⟩
  · cases ha : (act b t').answer <;> simp [attempt, Status.refuse?, Outcome.either, hc, ha]
  · simp [attempt, Status.refuse?, hc]

variable {act}

/-- What the guard lets through is as interruptible as it is without the guard. -/
theorem interruptible_attempt (hact : ∀ b, Interruptible (act b)) (s : Guarded β) :
    Interruptible fun t => s.attempt t act := by
  obtain ⟨⟨error, closed⟩, b⟩ := s
  cases error with
  | some e => exact .pure (.failed e) _
  | none =>
      cases closed with
      | true => exact .pure (.failed .closed) _
      | false =>
          refine Interruptible.congr (Interruptible.check ?_) (attempt_open act b)
          exact (hact b).either _ _ _ (fun a _ => .pure (.found a) _) (.pure .nothing _)

end Guarded

/-! ## Cursors

Everything a consumer can call on a cursor is interruptible if what its body does is. -/

structure Cursor.Robust (C : Cursor) : Prop where
  turn : ∀ b, Interruptible (C.turn b)

structure Scanner.Robust (S : Scanner) : Prop extends S.toCursor.Robust where
  pull : ∀ b, Interruptible (S.pull b)

structure Index.Robust (I : Index) : Prop extends I.toCursor.Robust where
  probe : ∀ h b, Interruptible (I.probe h b)

structure Roles.Robust (R : Roles) : Prop where
  scanner : R.scanner.Robust
  index : R.index.Robust

namespace Cursor.Robust

variable {C : Cursor}

theorem nextPath (hC : C.Robust) (s : C.State) : Interruptible (C.nextPath s) := by
  unfold Cursor.nextPath
  split
  · exact Guarded.interruptible_attempt hC.turn s
  · exact .pure _ s

theorem complete_alternates (C : Cursor) (s : C.State) (t : Token) :
    (C.alternates s t).complete =
      (C.nextPath s t).either
        (fun _ s' t' => (C.alternates s' t').complete.mapValue (C.tags s :: ·))
        (fun s' t' => ⟨.found [C.tags s], s', t'⟩) fun _ s' => s' := by
  rw [Cursor.alternates]
  dsimp only [Outcome.either]
  split
  · rename_i h
    rw [h]
    unfold Run.complete Outcome.mapValue
    cases (C.alternates (C.nextPath s t).state (C.nextPath s t).token).error <;> rfl
  · rename_i h
    rw [h]
    rfl
  · rename_i h
    rw [h]
    rfl

theorem alternates (hC : C.Robust) (s : C.State) :
    Interruptible fun t => (C.alternates s t).complete := by
  induction s using C.paths_end.induction with
  | _ s ih =>
      refine Interruptible.congr ?_ (complete_alternates C s)
      refine (hC.nextPath s).either _ _ _ (fun u hu => ?_) (.pure (.found [C.tags s]) _)
      exact (ih _ ⟨.never, hu, rfl⟩).mapValue _

theorem items_alternates (C : Cursor) (s : C.State) (t : Token) :
    (C.alternates s t).items =
      C.tags s :: match (C.nextPath s t).answer with
        | .found _ => (C.alternates (C.nextPath s t).state (C.nextPath s t).token).items
        | _ => [] := by
  rw [Cursor.alternates]
  dsimp only
  split <;> rename_i h <;> simp [h]

/-- An interrupted turning shows a first part of the binding sets. -/
theorem items_alternates_prefix (hC : C.Robust) (s : C.State) (t : Token) :
    (C.alternates s t).items <+: (C.alternates s .never).items := by
  induction s using C.paths_end.induction generalizing t with
  | _ s ih =>
      rw [items_alternates C s t, items_alternates C s .never]
      refine List.cons_prefix_cons.2 ⟨rfl, ?_⟩
      rcases (hC.nextPath s).fails_or_agrees t with ⟨e, he⟩ | ⟨ha, hs⟩
      · rw [he]
        exact List.nil_prefix
      · rw [ha, hs, (hC.nextPath s).never]
        cases hn : (C.nextPath s .never).answer with
        | found u => exact ih _ ⟨.never, hn, rfl⟩ _
        | nothing => exact List.prefix_rfl
        | failed e => exact List.prefix_rfl

end Cursor.Robust

theorem Run.of_complete {α σ : Type} {r : Run α σ} {items : List α}
    (h : r.complete.answer = .found items) : r.items = items ∧ r.error = none := by
  obtain ⟨_, _ | e, s, t⟩ := r
  · exact ⟨Answer.found.inj h, rfl⟩
  · simp [complete] at h

def Row.shown (r : Row) : List (Handle × Tags) :=
  r.sets.map (r.handle, ·)

namespace Scanner

/-- A drain is a pull, and if that finds a result the turns at it and a further drain. -/
theorem complete_drain (S : Scanner) (vet : Handle → Option QueryError) (s : S.State) (t : Token) :
    (S.drain vet s t).complete =
      (S.next s t).either
        (fun h s' t' =>
          match vet h with
          | some e => ⟨.failed e, s', t'⟩
          | none =>
              (S.alternates s' t').complete.andThen
                (fun sets s t => (S.drain vet s t).complete.mapValue (⟨h, sets⟩ :: ·)) id)
        (fun s' t' => ⟨.found [], s', t'⟩) fun _ s' => s' := by
  rw [Scanner.drain]
  dsimp only [Outcome.either]
  split
  · rename_i h
    rw [h]
    rfl
  · rename_i h
    rw [h]
    rfl
  · rename_i h hn
    rw [hn]
    dsimp only
    cases vet h with
    | some e => rfl
    | none =>
        unfold Run.complete Outcome.mapValue Outcome.andThen
        dsimp only
        cases (S.alternates (S.next s t).state (S.next s t).token).error with
        | some e => rfl
        | none =>
            dsimp only
            split <;> simp [Answer.map]

/-- A sift is a pull, and if that finds a result the judgement on it, with a further sift if the
judge finds nothing and the token does not trip. -/
theorem sift_eq {α τ : Type} (S : Scanner) (judge : Handle → τ → Token → Outcome α τ) (s : S.State)
    (x : τ) (t : Token) :
    S.sift judge s x t =
      (S.next s t).either
        (fun h s' t' =>
          (judge h x t').either (fun a x' t => ⟨.found a, (s', x'), t⟩)
            (fun x' t =>
              match t.check with
              | (some e, t) => ⟨.failed e, (s', x'), t⟩
              | (none, t) => S.sift judge s' x' t)
            fun _ x' => (s', x'))
        (fun s' t' => ⟨.nothing, (s', x), t'⟩) fun _ s' => (s', x) := by
  rw [Scanner.sift]
  dsimp only [Outcome.either]
  split
  · rename_i h
    rw [h]
  · rename_i h
    rw [h]
  · rename_i h hn
    rw [hn]
    dsimp only
    cases (judge h x (S.next s t).token).answer <;> rfl

namespace Robust

variable {S : Scanner}

theorem next (hS : S.Robust) (s : S.State) : Interruptible (S.next s) := by
  unfold Scanner.next
  split
  · exact Guarded.interruptible_attempt hS.pull _
  · exact .pure _ s

theorem drain (hS : S.Robust) (vet : Handle → Option QueryError) (s : S.State) :
    Interruptible fun t => (S.drain vet s t).complete := by
  induction s using S.order.wf.induction with
  | _ s ih =>
      refine Interruptible.congr ?_ (S.complete_drain vet s)
      refine (hS.next s).either _ _ _ (fun h hn => ?_) (.pure (.found []) _)
      cases vet h with
      | some e => exact .pure (.failed e) _
      | none =>
          refine (hS.alternates _).andThen fun sets _ => (ih _ ?_).mapValue _
          exact S.order.lt_of_le_of_lt (S.alternates_le _ _) (next_lt hn)

/-- What a judge makes of the results is interruptible if its judgements are. -/
theorem sift {α τ : Type} (hS : S.Robust) {judge : Handle → τ → Token → Outcome α τ}
    (hj : ∀ h x, Interruptible (judge h x)) (s : S.State) (x : τ) :
    Interruptible (S.sift judge s x) := by
  induction s using S.order.wf.induction generalizing x with
  | _ s ih =>
      refine Interruptible.congr ?_ (S.sift_eq judge s x)
      refine (hS.next s).either _ _ _ (fun h hn => ?_) (.pure .nothing _)
      refine (hj h x).either _ _ _ (fun a _ => .pure (.found a) _) ?_
      exact (ih _ (next_lt hn) _).check

/-- The rows of a drain: none without a pull that finds something, and after that as far as the
turns come to an end. -/
theorem items_drain (S : Scanner) (vet : Handle → Option QueryError) (s : S.State) (t : Token) :
    (S.drain vet s t).items =
      match (S.next s t).answer with
      | .found h =>
          match vet h with
          | some _ => []
          | none =>
              let a := S.alternates (S.next s t).state (S.next s t).token
              ⟨h, a.items⟩ ::
                match a.complete.answer with
                | .found _ => (S.drain vet a.state a.token).items
                | _ => []
      | _ => [] := by
  rw [Scanner.drain]
  dsimp only
  split
  · rename_i h
    rw [h]
  · rename_i h
    rw [h]
  · rename_i h hn
    rw [hn]
    dsimp only
    cases vet h with
    | some e => rfl
    | none =>
        dsimp only [Run.complete]
        cases (S.alternates (S.next s t).state (S.next s t).token).error <;> rfl

/-- An interrupted drain delivers a first part of the binding sets, each with its handle. -/
theorem shown_drain_prefix (hS : S.Robust) (vet : Handle → Option QueryError) (s : S.State)
    (t : Token) :
    (S.drain vet s t).items.flatMap Row.shown <+:
      (S.drain vet s .never).items.flatMap Row.shown := by
  induction s using S.order.wf.induction generalizing t with
  | _ s ih =>
      have hnext := hS.next s
      rw [items_drain S vet s t, items_drain S vet s .never, hnext.never]
      rcases hnext.fails_or_agrees t with ⟨e, he⟩ | ⟨ha, hs⟩
      · rw [he]
        exact List.nil_prefix
      rw [ha, hs]
      cases hn : (S.next s .never).answer with
      | nothing => exact List.prefix_rfl
      | failed e => exact List.prefix_rfl
      | found h =>
          dsimp only
          cases vet h with
          | some e => exact List.prefix_rfl
          | none =>
              have hle := S.alternates_le (S.next s .never).state .never
              have hturns := hS.alternates (S.next s .never).state
              have hitems := hS.items_alternates_prefix (S.next s .never).state (S.next s t).token
              have hrest := ih _ (S.order.lt_of_le_of_lt hle (next_lt hn))
              have hagree := hturns.fails_or_agrees (S.next s t).token
              have htoken := hturns.never
              generalize S.alternates (S.next s .never).state .never = full at *
              generalize S.alternates (S.next s .never).state (S.next s t).token = cut at *
              have hfirst (later : List (Handle × Tags)) :
                  Row.shown ⟨h, cut.items⟩ <+: Row.shown ⟨h, full.items⟩ ++ later :=
                (hitems.map _).trans (List.prefix_append _ later)
              simp only [List.flatMap_cons]
              rcases hagree with ⟨e, he⟩ | ⟨ha, hs⟩
              · rw [he]
                simpa using hfirst _
              rw [ha]
              cases hc : full.complete.answer with
              | nothing => simpa using hfirst []
              | failed e => simpa using hfirst []
              | found sets =>
                  rw [(Run.of_complete hc).1, (Run.of_complete (ha.trans hc)).1]
                  refine (List.prefix_append_right_inj _).2 ?_
                  rw [show full.token = .never from htoken, show cut.state = full.state from hs]
                  exact hrest cut.token

end Robust

end Scanner

theorem Index.Robust.contains {I : Index} (hI : I.Robust) (h : Handle) (s : I.State) :
    Interruptible (I.contains h s) :=
  Guarded.interruptible_attempt (hI.probe h) _

/-! ## The error of a drain

A cursor in good standing fails exactly when it records an error, so the error that a drain ends
with can be read off the cursor afterwards. -/

theorem Guarded.status_attempt {α β : Type} (act : β → Token → Outcome α β) {s : Guarded β}
    (hs : s.status = {}) (t : Token) :
    (s.attempt t act).state.status = ⟨(s.attempt t act).answer.error?, false⟩ := by
  obtain ⟨status, b⟩ := s
  obtain rfl : status = {} := hs
  simp only [attempt, Status.refuse?, Bool.false_eq_true, if_false]
  rcases t.check with ⟨_ | e, t⟩
  · dsimp only
    cases (act b t).answer <;> rfl
  · rfl

theorem Cursor.status_nextPath (C : Cursor) {s : C.State} {t : Token} {a : Answer Unit}
    (hs : s.status = {}) (ha : (C.nextPath s t).answer = a) :
    (C.nextPath s t).state.status = ⟨a.error?, false⟩ := by
  subst ha
  unfold nextPath
  split
  · exact Guarded.status_attempt C.turn hs t
  · exact hs

theorem Cursor.status_alternates (C : Cursor) {s : C.State} (hs : s.status = {}) (t : Token) :
    (C.alternates s t).state.status = ⟨(C.alternates s t).error, false⟩ := by
  fun_induction Cursor.alternates C s t with
  | case1 s t o u ho r ih => exact ih (C.status_nextPath hs ho)
  | case2 s t o ho => exact C.status_nextPath hs ho
  | case3 s t o e ho => exact C.status_nextPath hs ho

theorem Scanner.status_next (S : Scanner) {s : S.State} {t : Token} {a : Answer Handle}
    (hs : s.status = {}) (ha : (S.next s t).answer = a) :
    (S.next s t).state.status = ⟨a.error?, false⟩ := by
  subst ha
  unfold next
  split
  · exact Guarded.status_attempt S.pull (s := (⟨s.status, S.clear s.body⟩ : S.State)) hs t
  · exact hs

theorem Scanner.status_drain (S : Scanner) {s : S.State} (hs : s.status = {}) (t : Token) :
    (S.drain (fun _ => none) s t).state.status =
      ⟨(S.drain (fun _ => none) s t).error, false⟩ := by
  fun_induction Scanner.drain S (fun _ => none) s t with
  | case1 s t o ho => exact S.status_next hs ho
  | case2 s t o e ho => exact S.status_next hs ho
  | case3 => simp_all
  | case4 s t o h ho hv a e he =>
      exact (S.status_alternates (S.status_next hs ho) _).trans (by rw [he])
  | case5 s t o h ho hv a he r ih =>
      exact ih ((S.status_alternates (S.status_next hs ho) _).trans (by rw [he]))

end GraphQuery
