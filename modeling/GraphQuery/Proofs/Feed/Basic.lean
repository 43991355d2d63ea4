import GraphQuery.Cursor.Listing

/-!
# What cursors show

As long as nothing interrupts it, a scanner shows a feed: a result with its binding sets, and after
each number of turns a feed to pull from. An index shows a reply to a probe. `Scanner.Shows` and
`Index.Ready` tie the states of a cursor to what they show; everything that a drain or a record
delivers is read off the feed.
-/

namespace GraphQuery

/-- What the pulls of a scanner come to. `rest k` is what comes after `k` turns at the result. -/
inductive Feed where
  | done
  | failed (error : QueryError)
  | row (handle : Handle) (sets : List Tags) (rest : Nat → Feed)

/-- What a probe comes to: the binding sets that it shows, and what it or a turn past the last of
them fails with, if it does. -/
structure Reply where
  sets : List Tags
  error : Option QueryError
deriving DecidableEq

namespace Reply

def absent : Reply :=
  ⟨[], none⟩

def failure (e : QueryError) : Reply :=
  ⟨[], some e⟩

def ofSets (sets : List Tags) : Reply :=
  ⟨sets, none⟩

def answer : Reply → Answer Unit
  | ⟨_ :: _, _⟩ => .found ()
  | ⟨[], none⟩ => .nothing
  | ⟨[], some e⟩ => .failed e

def mapSets (g : Tags → Tags) (r : Reply) : Reply :=
  { r with sets := r.sets.map g }

@[simp] theorem answer_absent : absent.answer = .nothing :=
  rfl

@[simp] theorem answer_failure (e : QueryError) : (failure e).answer = .failed e :=
  rfl

@[simp] theorem answer_mapSets (g : Tags → Tags) (r : Reply) : (r.mapSets g).answer = r.answer := by
  obtain ⟨sets, error⟩ := r
  cases sets <;> rfl

end Reply

structure Delivered where
  rows : List Row
  error : Option QueryError

def Delivered.complete (d : Delivered) : Answer (List Row) :=
  match d.error with
  | some e => .failed e
  | none => .found d.rows

/-- A feed in which it does not matter how often one turns. -/
def Feed.ofRows : List Row → Feed
  | [] => .done
  | r :: rows => .row r.handle r.sets fun _ => ofRows rows

/-- The rows of a drain that turns through every result; `vet` may object to a result. -/
def Feed.drain (vet : Handle → Option QueryError) : Feed → Delivered
  | .done => ⟨[], none⟩
  | .failed e => ⟨[], some e⟩
  | .row h sets rest =>
      match vet h with
      | some e => ⟨[], some e⟩
      | none =>
          let d := (rest (sets.length - 1)).drain vet
          { d with rows := ⟨h, sets⟩ :: d.rows }

abbrev Feed.delivered (F : Feed) : Delivered :=
  F.drain fun _ => none

def Delivered.reply (d : Delivered) (h : Handle) : Reply :=
  match d.error with
  | some e => .failure e
  | none => .ofSets (bindingsOf h d.rows)

/-! ## Attempts in good standing -/

/-- A cursor in good standing lets its body act, and keeps the error if that fails. -/
theorem Guarded.attempt_never {α β : Type} {act : β → Token → Outcome α β} {b b' : β}
    {a : Answer α} {t : Token} (h : act b .never = ⟨a, b', t⟩) :
    (⟨{}, b⟩ : Guarded β).attempt .never act = ⟨a, ⟨⟨a.error?, false⟩, b'⟩, t⟩ := by
  unfold attempt
  simp only [Status.refuse?, Token.check_never, Bool.false_eq_true, if_false, h]
  cases a <;> rfl

theorem Guarded.attempt_inv {α β : Type} {act : β → Token → Outcome α β} {b : β} {s' : Guarded β}
    {a : Answer α} (h : (⟨{}, b⟩ : Guarded β).attempt .never act = ⟨a, s', .never⟩) :
    ∃ b', act b .never = ⟨a, b', .never⟩ ∧ s' = ⟨⟨a.error?, false⟩, b'⟩ := by
  cases ha : act b .never with
  | mk a₀ b₀ t₀ =>
      rw [attempt_never ha] at h
      simp only [Outcome.mk.injEq] at h
      obtain ⟨rfl, rfl, rfl⟩ := h
      exact ⟨b₀, rfl, rfl⟩

theorem Guarded.attempt_congr {α β : Type} {act : β → Token → Outcome α β} {b b' : β}
    (h : act b .never = act b' .never) :
    (⟨{}, b⟩ : Guarded β).attempt .never act = (⟨{}, b'⟩ : Guarded β).attempt .never act := by
  unfold attempt
  simp only [Status.refuse?, Token.check_never, Bool.false_eq_true, if_false, h]

/-! ## Turning -/

namespace Cursor

def Ends (C : Cursor) (after : C.State → Prop) (s : C.State) : Option QueryError → Prop
  | none => ∃ s', C.nextPath s .never = ⟨.nothing, s', .never⟩ ∧ after s'
  | some e => ∃ s', C.nextPath s .never = ⟨.failed e, s', .never⟩

/-- The cursor is at `h` and shows these binding sets, one turn after the other. `after k` holds of
the state after `k` turns. -/
def Offers (C : Cursor) (h : Handle) (error : Option QueryError) :
    (Nat → C.State → Prop) → List Tags → C.State → Prop
  | _, [], _ => False
  | after, [t], s =>
      C.result s = some h ∧ C.tags s = t ∧ after 0 s ∧ C.Ends (after 0) s error
  | after, t :: u :: sets, s =>
      C.result s = some h ∧ C.tags s = t ∧ after 0 s ∧
        ∃ s', C.nextPath s .never = ⟨.found (), s', .never⟩ ∧
          C.Offers h error (fun k => after (k + 1)) (u :: sets) s'

variable {C : Cursor} {h : Handle} {error : Option QueryError} {sets : List Tags} {s : C.State}

theorem Offers.ne_nil {after : Nat → C.State → Prop} (ho : C.Offers h error after sets s) :
    sets ≠ [] := by
  cases sets with
  | nil => exact ho.elim
  | cons t sets => exact List.cons_ne_nil t sets

theorem Offers.start {after : Nat → C.State → Prop} (ho : C.Offers h error after sets s) :
    after 0 s := by
  cases sets with
  | nil => exact ho.elim
  | cons t sets =>
      cases sets with
      | nil => exact ho.2.2.1
      | cons u sets => exact ho.2.2.1

theorem Offers.shown {after : Nat → C.State → Prop} (ho : C.Offers h error after sets s) :
    C.result s = some h ∧ ∃ others, sets = C.tags s :: others := by
  cases sets with
  | nil => exact ho.elim
  | cons t sets =>
      cases sets with
      | nil => exact ⟨ho.1, [], by rw [ho.2.1]⟩
      | cons u sets => exact ⟨ho.1, u :: sets, by rw [ho.2.1]⟩

theorem Offers.mono {after after' : Nat → C.State → Prop} (hm : ∀ k s, after k s → after' k s)
    (ho : C.Offers h error after sets s) : C.Offers h error after' sets s := by
  induction sets generalizing s after after' with
  | nil => exact ho
  | cons t sets ih =>
      cases sets with
      | nil =>
          obtain ⟨hr, ht, ha, he⟩ := ho
          refine ⟨hr, ht, hm 0 s ha, ?_⟩
          cases error with
          | none =>
              obtain ⟨s', hn, ha'⟩ := he
              exact ⟨s', hn, hm 0 s' ha'⟩
          | some e => exact he
      | cons u sets =>
          obtain ⟨hr, ht, ha, s', hn, hu⟩ := ho
          exact ⟨hr, ht, hm 0 s ha, s', hn, ih (fun k => hm (k + 1)) hu⟩

theorem nextPath_never {b b' : C.Body} {a : Answer Unit} (hc : C.canTurn b = true)
    (ht : C.turn b .never = ⟨a, b', .never⟩) :
    C.nextPath ⟨{}, b⟩ .never = ⟨a, ⟨⟨a.error?, false⟩, b'⟩, .never⟩ := by
  unfold nextPath
  rw [if_pos hc]
  exact Guarded.attempt_never ht

theorem alternates_found {s' : C.State} (hn : C.nextPath s .never = ⟨.found (), s', .never⟩) :
    C.alternates s .never =
      { C.alternates s' .never with items := C.tags s :: (C.alternates s' .never).items } := by
  rw [Cursor.alternates]
  dsimp only
  split <;> simp_all

theorem alternates_nothing {s' : C.State} (hn : C.nextPath s .never = ⟨.nothing, s', .never⟩) :
    C.alternates s .never = ⟨[C.tags s], none, s', .never⟩ := by
  rw [Cursor.alternates]
  dsimp only
  split <;> simp_all

theorem alternates_failed {s' : C.State} {e : QueryError}
    (hn : C.nextPath s .never = ⟨.failed e, s', .never⟩) :
    C.alternates s .never = ⟨[C.tags s], some e, s', .never⟩ := by
  rw [Cursor.alternates]
  dsimp only
  split <;> simp_all

/-- Turning to the end collects the binding sets. -/
theorem Offers.alternates {after : Nat → C.State → Prop} (ho : C.Offers h error after sets s) :
    ∃ s', C.alternates s .never = ⟨sets, error, s', .never⟩ ∧
      (error = none → after (sets.length - 1) s') := by
  induction sets generalizing s after with
  | nil => exact ho.elim
  | cons t sets ih =>
      cases sets with
      | nil =>
          obtain ⟨hr, ht, ha, he⟩ := ho
          cases error with
          | none =>
              obtain ⟨s', hn, ha'⟩ := he
              exact ⟨s', by rw [alternates_nothing hn, ht], fun _ => ha'⟩
          | some e =>
              obtain ⟨s', hn⟩ := he
              exact ⟨s', by rw [alternates_failed hn, ht], by simp⟩
      | cons u sets =>
          obtain ⟨hr, ht, ha, s', hn, hu⟩ := ho
          obtain ⟨s'', hs, hf⟩ := ih hu
          exact ⟨s'', by rw [alternates_found hn, hs, ht], fun he => by simpa using hf he⟩

/-- A cursor that keeps another one in its body, and turns by turning it, shows what that one
shows. -/
theorem Offers.wrap {D : Cursor} {h' : Handle} {after : Nat → C.State → Prop}
    {after' : Nat → D.State → Prop} (wrap : C.State → D.Body) (g : Tags → Tags)
    (hresult : ∀ s, C.result s = some h → D.shown (wrap s) = some h')
    (htags : ∀ s, C.result s = some h → D.binds (wrap s) = g (C.tags s))
    (hcan : ∀ s, D.canTurn (wrap s) = true)
    (hturn : ∀ s t, D.turn (wrap s) t = (C.nextPath s t).inState wrap)
    (hafter : ∀ k s, after k s → after' k ⟨{}, wrap s⟩)
    (ho : C.Offers h error after sets s) :
    D.Offers h' error after' (sets.map g) ⟨{}, wrap s⟩ := by
  have step : ∀ {s s' : C.State} {a : Answer Unit}, C.nextPath s .never = ⟨a, s', .never⟩ →
      D.nextPath ⟨{}, wrap s⟩ .never = ⟨a, ⟨⟨a.error?, false⟩, wrap s'⟩, .never⟩ := by
    intro s s' a hn
    exact nextPath_never (hcan s) (by rw [hturn, hn]; rfl)
  induction sets generalizing s after after' with
  | nil => exact ho
  | cons t sets ih =>
      cases sets with
      | nil =>
          obtain ⟨hr, ht, ha, he⟩ := ho
          refine ⟨hresult s hr, by rw [← ht]; exact htags s hr, hafter 0 s ha, ?_⟩
          cases error with
          | none =>
              obtain ⟨s', hn, ha'⟩ := he
              exact ⟨_, step hn, hafter 0 s' ha'⟩
          | some e =>
              obtain ⟨s', hn⟩ := he
              exact ⟨_, step hn⟩
      | cons u sets =>
          obtain ⟨hr, ht, ha, s', hn, hu⟩ := ho
          exact ⟨hresult s hr, by rw [← ht]; exact htags s hr, hafter 0 s ha, _, step hn,
            ih (fun k => hafter (k + 1)) hu⟩

/-- A cursor whose body holds the body of another one, and acts on it as that one does, shows what
that one shows. -/
theorem Offers.embed {D : Cursor} {after : Nat → C.State → Prop} {after' : Nat → D.State → Prop}
    (emb : C.Body → D.Body) (hshown : ∀ b, D.shown (emb b) = C.shown b)
    (hbinds : ∀ b, D.binds (emb b) = C.binds b) (hcan : ∀ b, C.canTurn b = true)
    (hcan' : ∀ b, D.canTurn (emb b) = true)
    (hturn : ∀ b t, D.turn (emb b) t = (C.turn b t).inState emb)
    (hafter : ∀ k b, after k ⟨{}, b⟩ → after' k ⟨{}, emb b⟩) {b : C.Body}
    (ho : C.Offers h error after sets ⟨{}, b⟩) : D.Offers h error after' sets ⟨{}, emb b⟩ := by
  have step : ∀ {b : C.Body} {s' : C.State} {a : Answer Unit},
      C.nextPath ⟨{}, b⟩ .never = ⟨a, s', .never⟩ →
      ∃ b', s' = ⟨⟨a.error?, false⟩, b'⟩ ∧
        D.nextPath ⟨{}, emb b⟩ .never = ⟨a, ⟨⟨a.error?, false⟩, emb b'⟩, .never⟩ := by
    intro b s' a hn
    unfold nextPath at hn
    rw [if_pos (hcan b)] at hn
    obtain ⟨b', ht, hs⟩ := Guarded.attempt_inv hn
    exact ⟨b', hs, nextPath_never (hcan' b) (by rw [hturn, ht]; rfl)⟩
  induction sets generalizing b after after' with
  | nil => exact ho
  | cons t sets ih =>
      cases sets with
      | nil =>
          obtain ⟨hr, ht, ha, he⟩ := ho
          refine ⟨(hshown b).trans hr, (hbinds b).trans ht, hafter 0 b ha, ?_⟩
          cases error with
          | none =>
              obtain ⟨s', hn, ha'⟩ := he
              obtain ⟨b', rfl, hn'⟩ := step hn
              exact ⟨_, hn', hafter 0 b' ha'⟩
          | some e =>
              obtain ⟨s', hn⟩ := he
              obtain ⟨b', -, hn'⟩ := step hn
              exact ⟨_, hn'⟩
      | cons u sets =>
          obtain ⟨hr, ht, ha, s', hn, hu⟩ := ho
          obtain ⟨b', rfl, hn'⟩ := step hn
          exact ⟨(hshown b).trans hr, (hbinds b).trans ht, hafter 0 b ha, _, hn',
            ih (fun k => hafter (k + 1)) hu⟩

end Cursor

/-! ## Scanners -/

namespace Scanner

/-- From this state on the scanner shows this feed. -/
def Shows (S : Scanner) : Feed → S.State → Prop
  | .done, s => ∃ s', S.next s .never = ⟨.nothing, s', .never⟩
  | .failed e, s => ∃ s', S.next s .never = ⟨.failed e, s', .never⟩
  | .row h sets rest, s =>
      ∃ s', S.next s .never = ⟨.found h, s', .never⟩ ∧
        S.Offers h none (fun k => S.Shows (rest k)) sets s'

variable {S : Scanner} {F : Feed} {s : S.State}

theorem Shows.congr {s' : S.State} (hn : S.next s .never = S.next s' .never)
    (hs : S.Shows F s') : S.Shows F s := by
  cases F <;> simpa only [Shows, hn] using hs

theorem next_never {b b' : S.Body} {a : Answer Handle} (hc : S.canPull b = true)
    (hp : S.pull (S.clear b) .never = ⟨a, b', .never⟩) :
    S.next ⟨{}, b⟩ .never = ⟨a, ⟨⟨a.error?, false⟩, b'⟩, .never⟩ := by
  unfold next
  rw [if_pos hc]
  exact Guarded.attempt_never hp

theorem next_congr {b b' : S.Body} (hb : S.canPull b = true) (hb' : S.canPull b' = true)
    (hp : S.pull (S.clear b) .never = S.pull (S.clear b') .never) :
    S.next ⟨{}, b⟩ .never = S.next ⟨{}, b'⟩ .never := by
  unfold next
  rw [if_pos hb, if_pos hb']
  exact Guarded.attempt_congr hp

theorem drain_congr {vet : Handle → Option QueryError} {s' : S.State}
    (hn : S.next s .never = S.next s' .never) : S.drain vet s .never = S.drain vet s' .never := by
  rw [Scanner.drain, Scanner.drain]
  revert hn
  generalize S.next s .never = o, S.next s' .never = o'
  rintro rfl
  rfl

theorem drain_nothing {vet : Handle → Option QueryError} {s' : S.State}
    (hn : S.next s .never = ⟨.nothing, s', .never⟩) :
    S.drain vet s .never = ⟨[], none, s', .never⟩ := by
  rw [Scanner.drain]
  dsimp only
  split <;> simp_all

theorem drain_failed {vet : Handle → Option QueryError} {s' : S.State} {e : QueryError}
    (hn : S.next s .never = ⟨.failed e, s', .never⟩) :
    S.drain vet s .never = ⟨[], some e, s', .never⟩ := by
  rw [Scanner.drain]
  dsimp only
  split <;> simp_all

theorem drain_objected {vet : Handle → Option QueryError} {s' : S.State} {h : Handle}
    {e : QueryError} (hn : S.next s .never = ⟨.found h, s', .never⟩) (hv : vet h = some e) :
    S.drain vet s .never = ⟨[], some e, s', .never⟩ := by
  rw [Scanner.drain]
  dsimp only
  split <;> simp_all

theorem drain_found {vet : Handle → Option QueryError} {s' s'' : S.State} {h : Handle}
    {sets : List Tags} (hn : S.next s .never = ⟨.found h, s', .never⟩) (hv : vet h = none)
    (ha : S.alternates s' .never = ⟨sets, none, s'', .never⟩) :
    S.drain vet s .never =
      { S.drain vet s'' .never with
        items := ⟨h, sets⟩ :: (S.drain vet s'' .never).items } := by
  rw [Scanner.drain]
  dsimp only
  split <;> simp_all

theorem Shows.drain (vet : Handle → Option QueryError) (hs : S.Shows F s) :
    ∃ s', S.drain vet s .never = ⟨(F.drain vet).rows, (F.drain vet).error, s', .never⟩ := by
  induction F generalizing s with
  | done =>
      obtain ⟨s', hn⟩ := hs
      exact ⟨s', drain_nothing hn⟩
  | failed e =>
      obtain ⟨s', hn⟩ := hs
      exact ⟨s', drain_failed hn⟩
  | row h sets rest ih =>
      obtain ⟨s', hn, ho⟩ := hs
      obtain ⟨s'', ha, hf⟩ := ho.alternates
      obtain ⟨s₃, hd⟩ := ih _ (hf rfl)
      cases hv : vet h with
      | some e =>
          exact ⟨s', by rw [drain_objected hn hv, Feed.drain, hv]⟩
      | none =>
          exact ⟨s₃, by rw [drain_found hn hv ha, hd, Feed.drain, hv]⟩

theorem Shows.record (vet : Handle → Option QueryError) (hs : S.Shows F S.fresh) :
    ∃ s', S.record vet .never =
      ⟨(F.drain vet).complete, s', .never⟩ := by
  obtain ⟨s', hd⟩ := hs.drain vet
  refine ⟨s', ?_⟩
  rw [Scanner.record, hd]
  rfl

end Scanner

/-! ## Indexes -/

namespace Index

/-- A probe for `h` gets this reply; `ready` holds of the states that the index is left in. -/
def Answers (I : Index) (ready : I.State → Prop) (h : Handle) (s : I.State) (r : Reply) : Prop :=
  ∃ s', I.contains h s .never = ⟨r.answer, s', .never⟩ ∧
    (r.answer = .nothing → ready s') ∧
    (r.answer = .found () → I.Offers h r.error (fun _ => ready) r.sets s')

/-- A turn, whatever it finds, leaves the index ready, unless it fails. -/
def Endures (I : Index) (ready : I.State → Prop) (s : I.State) : Prop :=
  ∃ a s', I.nextPath s .never = ⟨a, s', .never⟩ ∧ (a.error? = none → ready s')

/-- However often it has been probed and turned, the index gives these replies: the state is in a
set that no probe and no turn leaves. -/
def Ready (I : Index) (reply : Handle → Reply) (s : I.State) : Prop :=
  ∃ ready : I.State → Prop, ready s ∧
    ∀ s, ready s → I.Endures ready s ∧ ∀ h, I.Answers ready h s (reply h)

variable {I : Index} {reply : Handle → Reply}

theorem Endures.mono {ready ready' : I.State → Prop} (hm : ∀ s, ready s → ready' s) {s : I.State}
    (he : I.Endures ready s) : I.Endures ready' s := by
  obtain ⟨a, s', hn, ha⟩ := he
  exact ⟨a, s', hn, fun hok => hm s' (ha hok)⟩

/-- A body that is not turned is left as it is, and one that is turned as its turn leaves it. -/
theorem endures_of_turn {ready : I.State → Prop} {b b' : I.Body} {a : Answer Unit}
    (hb : ready ⟨{}, b⟩) (ht : I.turn b .never = ⟨a, b', .never⟩)
    (ha : a.error? = none → ready ⟨{}, b'⟩) : I.Endures ready ⟨{}, b⟩ := by
  cases hcan : I.canTurn b with
  | false => exact ⟨.nothing, ⟨{}, b⟩, by simp [Cursor.nextPath, hcan], fun _ => hb⟩
  | true =>
      refine ⟨a, _, Cursor.nextPath_never hcan ht, fun hok => ?_⟩
      rw [hok]
      exact ha hok

theorem Answers.mono {ready ready' : I.State → Prop} (hm : ∀ s, ready s → ready' s) {h : Handle}
    {s : I.State} {r : Reply} (ha : I.Answers ready h s r) : I.Answers ready' h s r := by
  obtain ⟨s', hc, hn, hf⟩ := ha
  exact ⟨s', hc, fun ha => hm s' (hn ha), fun ha => (hf ha).mono fun _ => hm⟩

/-- A set that no probe and no turn leaves consists of ready states. -/
theorem ready_of_closed (ready : I.State → Prop) (hturn : ∀ s, ready s → I.Endures ready s)
    (hprobe : ∀ s, ready s → ∀ h, I.Answers ready h s (reply h)) {s : I.State} (hs : ready s) :
    I.Ready reply s :=
  ⟨ready, hs, fun s hs => ⟨hturn s hs, hprobe s hs⟩⟩

theorem Ready.answers {s : I.State} (hs : I.Ready reply s) (h : Handle) :
    I.Answers (I.Ready reply) h s (reply h) := by
  obtain ⟨ready, hr, hclosed⟩ := hs
  exact ((hclosed s hr).2 h).mono fun s hs => ⟨ready, hs, hclosed⟩

theorem Ready.endures {s : I.State} (hs : I.Ready reply s) : I.Endures (I.Ready reply) s := by
  obtain ⟨ready, hr, hclosed⟩ := hs
  exact (hclosed s hr).1.mono fun s hs => ⟨ready, hs, hclosed⟩

theorem contains_never {h : Handle} {b b' : I.Body} {a : Answer Unit}
    (hp : I.probe h (I.aim h b) .never = ⟨a, b', .never⟩) :
    I.contains h ⟨{}, b⟩ .never = ⟨a, ⟨⟨a.error?, false⟩, b'⟩, .never⟩ :=
  Guarded.attempt_never hp

theorem answers_of_probe {ready : I.State → Prop} {h : Handle} {b c : I.Body} {r : Reply}
    (hp : I.probe h (I.aim h b) .never = ⟨r.answer, c, .never⟩)
    (hn : r.answer = .nothing → ready ⟨{}, c⟩)
    (hf : r.answer = .found () → I.Offers h r.error (fun _ => ready) r.sets ⟨{}, c⟩) :
    I.Answers ready h ⟨{}, b⟩ r := by
  refine ⟨_, contains_never hp, fun ha => ?_, fun ha => ?_⟩
  · rw [ha]
    exact hn ha
  · rw [ha]
    exact hf ha

end Index

/-! ## Reports of fresh cursors -/

def Run.report {α σ : Type} (r : Run α σ) : Except QueryError (List α) × Token :=
  (match r.error with
    | some e => .error e
    | none => .ok r.items, r.token)

/-- The rows of a full drain of a fresh scanner. -/
def Scanner.report (S : Scanner) (t : Token) : Except QueryError (List Row) × Token :=
  (S.drain (fun _ => none) S.fresh t).report

/-- The binding sets that a fresh index shows of a handle; none if it is no result. -/
def Index.report (I : Index) (h : Handle) (t : Token) : Except QueryError (List Tags) × Token :=
  let o := I.contains h I.fresh t
  match o.answer with
  | .nothing => (.ok [], o.token)
  | .failed e => (.error e, o.token)
  | .found _ => (I.alternates o.state o.token).report

/-- What a full drain of a fresh scanner reports, read off its feed. -/
theorem Scanner.Shows.report {S : Scanner} {F : Feed} (hs : S.Shows F S.fresh) :
    S.report .never = (match F.delivered.error with
      | some e => .error e
      | none => .ok F.delivered.rows, .never) := by
  obtain ⟨s', hd⟩ := hs.drain fun _ => none
  rw [Scanner.report, hd]
  rfl

/-- What the two cursors of a plan show. -/
structure Meaning where
  feed : Feed
  reply : Handle → Reply

structure Roles.Realizes (R : Roles) (M : Meaning) : Prop where
  shows : R.scanner.Shows M.feed R.scanner.fresh
  ready : R.index.Ready M.reply R.index.fresh

end GraphQuery
