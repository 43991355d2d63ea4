import GraphQuery.Cursor.Step
import GraphQuery.Proofs.Feed.Join
import GraphQuery.Proofs.Feed.Listing

/-!
# What steps show

From each result of the source a step walks its quads in order; a quad that passes the test makes a
row. The index walks the quads of a target back and collects the binding sets of the sources that
the source index holds.
-/

namespace GraphQuery

theorem Outcome.andThen_mapValue {α β γ σ : Type} (o : Outcome α σ)
    (go : α → σ → Token → Outcome β σ) (f : β → γ) :
    o.andThen (fun a s t => (go a s t).mapValue f) id = (o.andThen go id).mapValue f := by
  unfold andThen
  cases o.answer <;> rfl

def Reply.complete (r : Reply) : Answer (List Tags) :=
  match r.error, r.sets with
  | some e, _ => .failed e
  | none, [] => .nothing
  | none, t :: sets => .found (t :: sets)

theorem Index.Ready.complete {I : Index} {reply : Handle → Reply} {s : I.State}
    (hs : I.Ready reply s) (h : Handle) :
    ∃ s', (I.contains h s .never).andThen (fun _ s t => (I.alternates s t).complete) id =
        ⟨(reply h).complete, s', .never⟩ ∧
      ((reply h).complete.error? = none → I.Ready reply s') := by
  obtain ⟨s', hc, hnothing, hfound⟩ := hs.answers h
  rw [hc]
  cases hr : reply h with
  | mk sets error =>
      rw [hr] at hnothing hfound
      cases sets with
      | nil =>
          cases error with
          | none => exact ⟨s', rfl, fun _ => hnothing rfl⟩
          | some e => exact ⟨s', rfl, by simp [Reply.complete, Answer.error?]⟩
      | cons t sets =>
          obtain ⟨s'', ha, hready⟩ := (hfound rfl).alternates
          refine ⟨s'', ?_, fun he => hready ?_⟩
          · show Run.complete (I.alternates s' .never) = _
            rw [ha]
            cases error <;> rfl
          · cases error with
            | none => rfl
            | some e => simp [Reply.complete, Answer.error?] at he

/-! ## Testing quads -/

structure QuadReplies where
  via : Option (Handle → Reply)
  names : List String
  labels : Option (Handle → Reply)

/-- The binding sets for a handle; where nothing is demanded there are none to combine. -/
def demanded (reply : Option (Handle → Reply)) (h : Handle) : Answer (List (List Tags)) :=
  match reply with
  | none => .found []
  | some reply => (reply h).complete.map fun sets => [sets]

namespace QuadReplies

def labelBindings (D : QuadReplies) (label : Option Handle) : Answer (List (List Tags)) :=
  match D.labels.isSome, label with
  | true, some l => demanded D.labels l
  | true, none => .nothing
  | false, _ => .found []

def named (D : QuadReplies) (predicate : Handle) : List (List Tags) :=
  if D.names.isEmpty then [] else [[.ofNames D.names predicate]]

/-- The binding sets that come with a quad, unless it is rejected. -/
def bindings (D : QuadReplies) (quad : Quad) : Answer (List (List Tags)) :=
  match demanded D.via quad.predicate with
  | .nothing => .nothing
  | .failed e => .failed e
  | .found via =>
      (D.labelBindings quad.label).map fun labels => via ++ D.named quad.predicate ++ labels

end QuadReplies

def OptionalState.Ready : (I : Option Index) → Option (Handle → Reply) → OptionalState I → Prop
  | none, none, _ => True
  | some I, some reply, s => I.Ready reply s
  | _, _, _ => False

theorem OptionalState.Ready.bindings : ∀ {I : Option Index} {reply : Option (Handle → Reply)}
    {s : OptionalState I}, Ready I reply s → ∀ h, ∃ s',
      OptionalState.bindings I h s .never = ⟨demanded reply h, s', .never⟩ ∧
        ((demanded reply h).error? = none → Ready I reply s')
  | none, none, s, _, h => ⟨s, rfl, fun _ => trivial⟩
  | none, some _, _, hs, _ => hs.elim
  | some _, none, _, hs, _ => hs.elim
  | some I, some reply, s, hs, h => by
      obtain ⟨s', hc, hr⟩ := hs.complete h
      refine ⟨s', ?_, fun he => hr ?_⟩
      · show (I.contains h s .never).andThen
          (fun _ s t => ((I.alternates s t).complete).mapValue fun sets => [sets]) id = _
        rw [Outcome.andThen_mapValue, hc]
        rfl
      · revert he
        simp only [demanded]
        cases (reply h).complete <;> simp [Answer.map, Answer.error?]

structure QuadTest.Ready (Q : QuadTest) (D : QuadReplies) (s : Q.State) : Prop where
  names : Q.names = D.names
  via : OptionalState.Ready Q.via D.via s.1
  labels : OptionalState.Ready Q.labels D.labels s.2

theorem OptionalState.Ready.isSome {I : Option Index} {reply : Option (Handle → Reply)}
    {s : OptionalState I} (hs : Ready I reply s) : I.isSome = reply.isSome := by
  cases I with
  | none =>
      cases reply with
      | none => rfl
      | some reply => exact hs.elim
  | some I =>
      cases reply with
      | none => exact hs.elim
      | some reply => rfl

theorem QuadTest.Ready.bindings {Q : QuadTest} {D : QuadReplies} {s : Q.State}
    (hs : Q.Ready D s) (quad : Quad) : ∃ s',
      Q.bindings quad s .never = ⟨D.bindings quad, s', .never⟩ ∧
        ((D.bindings quad).error? = none → Q.Ready D s') := by
  obtain ⟨v, hv, hvr⟩ := hs.via.bindings quad.predicate
  have hl : ∃ l, Q.labelBindings quad.label s.2 .never =
      ⟨D.labelBindings quad.label, l, .never⟩ ∧
        ((D.labelBindings quad.label).error? = none →
          OptionalState.Ready Q.labels D.labels l) := by
    unfold QuadTest.labelBindings QuadReplies.labelBindings
    rw [hs.labels.isSome]
    cases D.labels.isSome with
    | false => exact ⟨s.2, rfl, fun _ => hs.labels⟩
    | true =>
        cases quad.label with
        | none => exact ⟨s.2, rfl, fun _ => hs.labels⟩
        | some l => exact hs.labels.bindings l
  obtain ⟨l, hl, hlr⟩ := hl
  have hnamed : Q.named quad.predicate = D.named quad.predicate := by
    rw [QuadTest.named, QuadReplies.named, hs.names]
  unfold QuadTest.bindings QuadReplies.bindings
  rw [hv]
  cases hd : demanded D.via quad.predicate with
  | nothing => exact ⟨(v, s.2), rfl, fun _ => ⟨hs.names, hvr (by rw [hd]; rfl), hs.labels⟩⟩
  | failed e => exact ⟨(v, s.2), rfl, by simp [Answer.error?]⟩
  | found via =>
      refine ⟨(v, l), ?_, fun he => ⟨hs.names, hvr (by rw [hd]; rfl), hlr ?_⟩⟩
      · simp only [Outcome.andThen, hl, hnamed]
        rfl
      · revert he
        cases D.labelBindings quad.label <;> simp [Answer.map, Answer.error?]

/-! ## Forwards -/

structure Trail where
  store : QuadStore
  fromEnd : Direction
  toEnd : Direction

def Walk.trail (W : Walk) : Trail :=
  ⟨W.store, W.fromEnd, W.toEnd⟩

@[simp] theorem Walk.trail_store (W : Walk) : W.trail.store = W.store :=
  rfl

@[simp] theorem Walk.trail_fromEnd (W : Walk) : W.trail.fromEnd = W.fromEnd :=
  rfl

@[simp] theorem Walk.trail_toEnd (W : Walk) : W.trail.toEnd = W.toEnd :=
  rfl

def Trail.reached (T : Trail) (D : QuadReplies) (id : QuadId) :
    Answer (Handle × List (List Tags)) :=
  match T.store.quad id with
  | none => .nothing
  | some quad =>
      match quad.at T.toEnd with
      | none => .nothing
      | some target => (D.bindings quad).map fun sets => (target, sets)

theorem Walk.follow_never {W : Walk} {D : QuadReplies} {s : W.test.State} (hs : W.test.Ready D s)
    (id : QuadId) : ∃ s', W.follow id s .never = ⟨W.trail.reached D id, s', .never⟩ ∧
      ((W.trail.reached D id).error? = none → W.test.Ready D s') := by
  unfold Walk.follow Trail.reached Walk.trail
  cases W.store.quad id with
  | none => exact ⟨s, rfl, fun _ => hs⟩
  | some quad =>
      dsimp only
      cases quad.at W.toEnd with
      | none => exact ⟨s, rfl, fun _ => hs⟩
      | some target =>
          obtain ⟨s', hb, hr⟩ := hs.bindings quad
          refine ⟨s', by simp only [hb]; rfl, fun he => hr ?_⟩
          revert he
          cases D.bindings quad <;> simp [Answer.map, Answer.error?]

def Feed.walk (reached : QuadId → Answer (Handle × List (List Tags))) (own : List Tags) :
    List QuadId → Feed → Feed
  | [], next => next
  | id :: quads, next =>
      match reached id with
      | .found (target, sets) =>
          .row target (Combinations.all (own :: sets)) fun _ => walk reached own quads next
      | .nothing => walk reached own quads next
      | .failed e => .failed e

def Feed.step (T : Trail) (D : QuadReplies) : Feed → Feed
  | .done => .done
  | .failed e => .failed e
  | .row h sets rest =>
      walk (T.reached D) sets (T.store.quadsWith T.fromEnd h)
        ((rest (sets.length - 1)).step T D)

namespace Walking

variable {S : Scanner} {W : Walk} {source source' : S.State} {own : List Tags} {id : QuadId}
  {quads : List QuadId} {test test' : W.test.State}

theorem advance_found {target : Handle} {sets : List (List Tags)}
    (hf : W.follow id test .never = ⟨.found (target, sets), test', .never⟩) :
    (⟨source, own, id :: quads, test⟩ : Walking S W).advance .never =
      ⟨.found (target, own :: sets), ⟨source, own, quads, test'⟩, .never⟩ := by
  rw [advance]
  simp only [hf]

theorem advance_rejected (hf : W.follow id test .never = ⟨.nothing, test', .never⟩) :
    (⟨source, own, id :: quads, test⟩ : Walking S W).advance .never =
      (⟨source, own, quads, test'⟩ : Walking S W).advance .never := by
  rw [advance]
  simp only [hf, Token.check_never]

theorem advance_failed {e : QueryError}
    (hf : W.follow id test .never = ⟨.failed e, test', .never⟩) :
    (⟨source, own, id :: quads, test⟩ : Walking S W).advance .never =
      ⟨.failed e, ⟨source, own, quads, test'⟩, .never⟩ := by
  rw [advance]
  simp only [hf]

theorem advance_done (hn : S.next source .never = ⟨.nothing, source', .never⟩) :
    (⟨source, own, [], test⟩ : Walking S W).advance .never =
      ⟨.nothing, ⟨source', own, [], test⟩, .never⟩ := by
  rw [advance]
  dsimp only
  split <;> simp_all

theorem advance_broken {e : QueryError}
    (hn : S.next source .never = ⟨.failed e, source', .never⟩) :
    (⟨source, own, [], test⟩ : Walking S W).advance .never =
      ⟨.failed e, ⟨source', own, [], test⟩, .never⟩ := by
  rw [advance]
  dsimp only
  split <;> simp_all

theorem advance_next {h : Handle} {sets : List Tags} {source'' : S.State}
    (hn : S.next source .never = ⟨.found h, source', .never⟩)
    (ha : S.alternates source' .never = ⟨sets, none, source'', .never⟩) :
    (⟨source, own, [], test⟩ : Walking S W).advance .never =
      (⟨source'', sets, W.store.quadsWith W.fromEnd h, test⟩ : Walking S W).advance .never := by
  rw [advance]
  dsimp only
  split <;> simp_all

end Walking

namespace Scanner

variable {S : Scanner} {W : Walk} {D : QuadReplies}

theorem Shows.walk {next : Feed} {source : S.State} {own : List Tags}
    (hnext : ∀ test combos c, W.test.Ready D test →
      (S.step W).Shows next ⟨{}, ⟨⟨source, own, [], test⟩, combos, c⟩⟩) (quads : List QuadId) :
    ∀ test combos c, W.test.Ready D test →
      (S.step W).Shows (Feed.walk (W.trail.reached D) own quads next)
        ⟨{}, ⟨⟨source, own, quads, test⟩, combos, c⟩⟩ := by
  induction quads with
  | nil => exact hnext
  | cons id quads ih =>
      intro test combos c ht
      obtain ⟨test', hf, hr⟩ := Walk.follow_never ht id
      unfold Feed.walk
      have pull : ∀ {a b'}, (⟨source, own, id :: quads, test⟩ : Walking S W).advance .never =
          ⟨a, b', .never⟩ → (S.step W).pull ((S.step W).clear
            ⟨⟨source, own, id :: quads, test⟩, combos, c⟩) .never =
          (⟨a, b', .never⟩ : Outcome _ _).andThen
            (fun r s t => ⟨.found r.1, ⟨s, .ofSets r.2, some r.1⟩, t⟩)
            fun s => ⟨s, combos, none⟩ := by
        intro a b' ha
        simp only [Scanner.step, Scanner.pullWalked, ha]
        rfl
      cases hc : W.trail.reached D id with
      | nothing =>
          rw [hc] at hf hr
          refine Shows.congr (Scanner.next_congr rfl rfl ?_) (ih test' combos c (hr rfl))
          simp only [Scanner.step, Scanner.pullWalked, Walking.advance_rejected hf]
          rfl
      | failed e =>
          rw [hc] at hf
          exact ⟨_, Scanner.next_never rfl (pull (Walking.advance_failed hf))⟩
      | found r =>
          obtain ⟨target, sets⟩ := r
          rw [hc] at hf hr
          refine ⟨_, Scanner.next_never rfl (pull (Walking.advance_found hf)), ?_⟩
          exact Cursor.offers_combining (.ofSets (own :: sets))
            fun _ combos => ih test' combos (some target) (hr rfl)

theorem Shows.step {F : Feed} {source : S.State} (hs : S.Shows F source) :
    ∀ own test combos c, W.test.Ready D test →
      (S.step W).Shows (F.step W.trail D) ⟨{}, ⟨⟨source, own, [], test⟩, combos, c⟩⟩ := by
  induction F generalizing source with
  | done =>
      intro own test combos c ht
      obtain ⟨source', hn⟩ := hs
      have hp : (S.step W).pull ((S.step W).clear ⟨⟨source, own, [], test⟩, combos, c⟩) .never =
          ⟨.nothing, (⟨⟨source', own, [], test⟩, combos, none⟩ : Combining _), .never⟩ := by
        simp only [Scanner.step, Scanner.pullWalked, Walking.advance_done hn]
        rfl
      exact ⟨_, Scanner.next_never rfl hp⟩
  | failed e =>
      intro own test combos c ht
      obtain ⟨source', hn⟩ := hs
      have hp : (S.step W).pull ((S.step W).clear ⟨⟨source, own, [], test⟩, combos, c⟩) .never =
          ⟨.failed e, (⟨⟨source', own, [], test⟩, combos, none⟩ : Combining _), .never⟩ := by
        simp only [Scanner.step, Scanner.pullWalked, Walking.advance_broken hn]
        rfl
      exact ⟨_, Scanner.next_never rfl hp⟩
  | row h sets rest ih =>
      intro own test combos c ht
      obtain ⟨source', hn, ho⟩ := hs
      obtain ⟨source'', ha, hrest⟩ := ho.alternates
      refine Shows.congr (Scanner.next_congr rfl rfl ?_)
        (Shows.walk (ih _ (hrest rfl) sets) _ test combos c ht)
      simp only [Scanner.step, Scanner.pullWalked, Walking.advance_next hn ha]
      rfl

end Scanner

/-! ## Backwards -/

namespace Trail

def cameFrom (D : QuadReplies) (reply : Handle → Reply) (quad : Quad) (source : Handle) :
    Answer (List Tags) :=
  match D.bindings quad with
  | .nothing => .nothing
  | .failed e => .failed e
  | .found sets => (reply source).complete.map fun own => Combinations.all (own :: sets)

def retraced (T : Trail) (D : QuadReplies) (reply : Handle → Reply) :
    List QuadId → Answer (List Tags)
  | [] => .found []
  | id :: quads =>
      match (T.store.quad id).bind fun quad => (quad.at T.fromEnd).map (quad, ·) with
      | none => retraced T D reply quads
      | some (quad, source) =>
          match cameFrom D reply quad source with
          | .failed e => .failed e
          | .nothing => retraced T D reply quads
          | .found sets => (retraced T D reply quads).map (sets ++ ·)

theorem retraced_ne_nothing (T : Trail) (D : QuadReplies) (reply : Handle → Reply)
    (quads : List QuadId) : T.retraced D reply quads ≠ .nothing := by
  induction quads with
  | nil => simp [retraced]
  | cons id quads ih =>
      rw [retraced]
      split
      · exact ih
      · split
        · simp
        · exact ih
        · cases hr : T.retraced D reply quads with
          | nothing => exact (ih hr).elim
          | found sets => simp [Answer.map]
          | failed e => simp [Answer.map]

end Trail

namespace Walk

open Trail (cameFrom)

variable {W : Walk} {D : QuadReplies} {I : Index} {reply : Handle → Reply}

theorem comeFrom_never {s : I.State × W.test.State} (hI : I.Ready reply s.1)
    (ht : W.test.Ready D s.2) (quad : Quad) (source : Handle) : ∃ s',
      W.comeFrom I quad source s .never = ⟨cameFrom D reply quad source, s', .never⟩ ∧
        ((cameFrom D reply quad source).error? = none →
          I.Ready reply s'.1 ∧ W.test.Ready D s'.2) := by
  obtain ⟨q, hb, hq⟩ := ht.bindings quad
  obtain ⟨r, hc, hr⟩ := hI.complete source
  unfold comeFrom cameFrom
  rw [hb]
  cases hd : D.bindings quad with
  | nothing => exact ⟨(s.1, q), rfl, fun _ => ⟨hI, hq (by rw [hd]; rfl)⟩⟩
  | failed e => exact ⟨(s.1, q), rfl, by simp [Answer.error?]⟩
  | found sets =>
      refine ⟨(r, q), ?_, fun he => ⟨hr ?_, hq (by rw [hd]; rfl)⟩⟩
      · show ((I.contains source s.1 .never).andThen
          (fun _ r t => (I.alternates r t).complete.mapValue
            fun own => Combinations.all (own :: sets)) id).inState (fun r => (r, q)) = _
        rw [Outcome.andThen_mapValue, hc]
        rfl
      · revert he
        cases (reply source).complete <;> simp [Answer.map, Answer.error?]

theorem retrace_never (quads : List QuadId) : ∀ {s : I.State × W.test.State},
    I.Ready reply s.1 → W.test.Ready D s.2 → ∃ s',
      W.retrace I quads s .never = ⟨W.trail.retraced D reply quads, s', .never⟩ ∧
        ((W.trail.retraced D reply quads).error? = none →
          I.Ready reply s'.1 ∧ W.test.Ready D s'.2) := by
  induction quads with
  | nil => exact fun {s} hI ht => ⟨s, rfl, fun _ => ⟨hI, ht⟩⟩
  | cons id quads ih =>
      intro s hI ht
      unfold retrace Trail.retraced
      simp only [Token.check_never, Walk.trail_store, Walk.trail_fromEnd]
      cases (W.store.quad id).bind fun quad => (quad.at W.fromEnd).map (quad, ·) with
      | none => exact ih hI ht
      | some p =>
          obtain ⟨quad, source⟩ := p
          obtain ⟨s', hc, hr⟩ := comeFrom_never hI ht quad source
          dsimp only
          rw [hc]
          cases ha : cameFrom D reply quad source with
          | failed e => exact ⟨s', rfl, by simp [Answer.error?]⟩
          | nothing =>
              obtain ⟨hI', ht'⟩ := hr (by rw [ha]; rfl)
              exact ih hI' ht'
          | found sets =>
              obtain ⟨hI', ht'⟩ := hr (by rw [ha]; rfl)
              obtain ⟨s'', hc', hr'⟩ := ih hI' ht'
              refine ⟨s'', by simp only [hc']; rfl, fun he => hr' ?_⟩
              revert he
              cases W.trail.retraced D reply quads <;> simp [Answer.map, Answer.error?]

end Walk

def Reply.step (T : Trail) (D : QuadReplies) (reply : Handle → Reply) (h : Handle) : Reply :=
  match T.retraced D reply (T.store.quadsWith T.toEnd h) with
  | .found sets => .ofSets sets
  | .nothing => .absent
  | .failed e => .failure e

theorem Index.Ready.step {I : Index} {W : Walk} {D : QuadReplies} {reply : Handle → Reply}
    (hI : I.Ready reply I.fresh) (ht : W.test.Ready D W.test.fresh) :
    (I.step W).Ready (Reply.step W.trail D reply) (I.step W).fresh := by
  refine Index.ready_of_closed (I := I.step W)
    (fun d => d.status = {} ∧ I.Ready reply d.body.source.1 ∧ W.test.Ready D d.body.source.2) ?_ ?_
    ⟨rfl, hI, ht⟩
  · intro d hd
    obtain ⟨_, b⟩ := d
    obtain ⟨hst, hsource⟩ := hd
    subst hst
    obtain ⟨a, sets, hturn⟩ := b.turn_eq .never
    exact Index.endures_of_turn (I := I.step W) ⟨rfl, hsource⟩ hturn fun _ => ⟨rfl, hsource⟩
  intro d hd h
  obtain ⟨_, ⟨source, current, sets⟩⟩ := d
  obtain ⟨hst, hI, ht⟩ := hd
  subst hst
  obtain ⟨s', hr, hready⟩ := Walk.retrace_never (W.store.quadsWith W.toEnd h) hI ht
  unfold Reply.step
  simp only [Walk.trail_store, Walk.trail_toEnd]
  cases ha : W.trail.retraced D reply (W.store.quadsWith W.toEnd h) with
  | nothing => exact (Trail.retraced_ne_nothing _ _ _ _ ha).elim
  | failed e =>
      have hp : (I.step W).probe h ((I.step W).aim h ⟨source, current, sets⟩) .never =
          ⟨.failed e, (⟨s', none, []⟩ : Listing _), .never⟩ := by
        simp only [Index.step, hr, ha]
      exact Index.answers_of_probe hp (by simp) (by simp)
  | found sets' =>
      have hready := hready (by rw [ha]; rfl)
      cases sets' with
      | nil =>
          have hp : (I.step W).probe h ((I.step W).aim h ⟨source, current, sets⟩) .never =
              ⟨.nothing, (⟨s', none, []⟩ : Listing _), .never⟩ := by
            simp only [Index.step, hr, ha]
          exact Index.answers_of_probe hp (fun _ => ⟨rfl, hready⟩)
            (by simp [Reply.ofSets, Reply.answer])
      | cons t ts =>
          have hp : (I.step W).probe h ((I.step W).aim h ⟨source, current, sets⟩) .never =
              ⟨.found (), (⟨s', some h, t :: ts⟩ : Listing _), .never⟩ := by
            simp only [Index.step, hr, ha]
          refine Index.answers_of_probe hp (by simp [Reply.ofSets, Reply.answer]) fun _ => ?_
          exact Cursor.offers_listing (List.cons_ne_nil t ts) (fun _ => rfl)
            fun _ _ => ⟨rfl, hready⟩

/-! ## Both roles -/

def Meaning.step (M : Meaning) (T : Trail) (D : QuadReplies) : Meaning :=
  ⟨M.feed.step T D, Reply.step T D M.reply⟩

theorem Roles.Realizes.step {R : Roles} {M : Meaning} {W : Walk} {D : QuadReplies}
    (hR : R.Realizes M) (ht : W.test.Ready D W.test.fresh) :
    (R.step W).Realizes (M.step W.trail D) :=
  ⟨hR.shows.step [] _ .empty none ht, hR.ready.step ht⟩

theorem OptionalState.ready_fresh {R : Option Roles} {M : Option Meaning}
    (h : Option.Rel Roles.Realizes R M) :
    Ready (R.map Roles.index) (M.map Meaning.reply) (.fresh (R.map Roles.index)) := by
  cases h with
  | none => trivial
  | some h => exact h.ready

end GraphQuery
