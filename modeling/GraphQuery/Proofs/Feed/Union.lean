import GraphQuery.Cursor.Union
import GraphQuery.Proofs.Feed.Group

/-!
# What unions show

A union shows the feeds of its branches one after the other. Its index replies with the binding sets
of one branch after the other, up to the first failure.
-/

namespace GraphQuery

/-! ## Scanning the branches -/

/-- One feed after another. A feed that fails hides what comes after it. -/
def Feed.append : Feed → Feed → Feed
  | .done, G => G
  | .failed e, _ => .failed e
  | .row h sets rest, G => .row h sets fun k => (rest k).append G

def Feed.concat (Fs : List Feed) : Feed :=
  Fs.foldr Feed.append .done

namespace Scanner

variable {S : Scanner} {Ss : List Scanner}

/-- Once the first branch has ended, those after it are scanned as if they were alone. -/
theorem Shows.later {F : Feed} {b : BranchState Ss} (hs : (Scanner.union Ss).Shows F ⟨{}, b⟩) :
    (Scanner.union (S :: Ss)).Shows F ⟨{}, .inr b⟩ := by
  have next : ∀ {b : BranchState Ss} {s' a},
      (Scanner.union Ss).next ⟨{}, b⟩ .never = ⟨a, s', .never⟩ →
      ∃ b', s' = ⟨⟨a.error?, false⟩, b'⟩ ∧ (Scanner.union (S :: Ss)).next ⟨{}, .inr b⟩ .never =
        ⟨a, ⟨⟨a.error?, false⟩, .inr b'⟩, .never⟩ := by
    intro b s' a hn
    obtain ⟨b', hp, hs⟩ := Guarded.attempt_inv hn
    refine ⟨b', hs, Scanner.next_never rfl ?_⟩
    show (BranchState.pull Ss b .never).inState Sum.inr = _
    change BranchState.pull Ss b .never = _ at hp
    rw [hp]
    rfl
  induction F generalizing b with
  | done =>
      obtain ⟨s', hn⟩ := hs
      obtain ⟨b', -, hn'⟩ := next hn
      exact ⟨_, hn'⟩
  | failed e =>
      obtain ⟨s', hn⟩ := hs
      obtain ⟨b', -, hn'⟩ := next hn
      exact ⟨_, hn'⟩
  | row h sets rest ih =>
      obtain ⟨s', hn, ho⟩ := hs
      obtain ⟨b', rfl, hn'⟩ := next hn
      refine ⟨_, hn', ?_⟩
      exact ho.embed (D := (Scanner.union (S :: Ss)).toCursor)
        (fun b : BranchState Ss => (.inr b : S.State ⊕ BranchState Ss)) (fun _ => rfl)
        (fun _ => rfl) (fun _ => rfl) (fun _ => rfl) (fun _ _ => rfl) fun k b hb => ih k hb

/-- After the feed of the first branch comes what those after it show. -/
theorem Shows.first {F G : Feed} {s : S.State} (hs : S.Shows F s)
    (hG : (Scanner.union Ss).Shows G (Scanner.union Ss).fresh) :
    (Scanner.union (S :: Ss)).Shows (F.append G) ⟨{}, .inl s⟩ := by
  have next : ∀ {s s' : S.State} {a}, a ≠ .nothing → S.next s .never = ⟨a, s', .never⟩ →
      (Scanner.union (S :: Ss)).next ⟨{}, .inl s⟩ .never =
        ⟨a, ⟨⟨a.error?, false⟩, .inl s'⟩, .never⟩ := by
    intro s s' a ha hn
    refine Scanner.next_never rfl ?_
    show BranchState.pullThen S _ _ s .never = _
    unfold BranchState.pullThen
    cases a with
    | found h => rw [hn]; rfl
    | nothing => exact (ha rfl).elim
    | failed e => rw [hn]; rfl
  induction F generalizing s with
  | done =>
      obtain ⟨s', hn⟩ := hs
      refine Shows.congr (Scanner.next_congr rfl rfl ?_) hG.later
      show BranchState.pullThen S _ _ s .never = _
      simp only [BranchState.pullThen, hn, Token.check_never]
      rfl
  | failed e =>
      obtain ⟨s', hn⟩ := hs
      exact ⟨_, next (by simp) hn⟩
  | row h sets rest ih =>
      obtain ⟨s', hn, ho⟩ := hs
      refine ⟨_, next (by simp) hn, ?_⟩
      have hw : (Scanner.union (S :: Ss)).Offers h none
          (fun k => (Scanner.union (S :: Ss)).Shows ((rest k).append G)) (sets.map id)
          ⟨{}, .inl s'⟩ :=
        ho.wrap (D := (Scanner.union (S :: Ss)).toCursor) (fun s => .inl s) id (fun _ hr => hr)
          (fun _ _ => rfl) (fun _ => rfl) (fun _ _ => rfl) fun k s hs => ih k hs
      rwa [List.map_id] at hw

end Scanner

theorem Scanner.shows_union {Ss : List Scanner} {Fs : List Feed}
    (h : List.Forall₂ (fun S F => S.Shows F S.fresh) Ss Fs) :
    (Scanner.union Ss).Shows (.concat Fs) (Scanner.union Ss).fresh := by
  induction h with
  | nil => exact ⟨_, Scanner.next_never rfl rfl⟩
  | cons hS _ ih => exact hS.first ih

/-! ## Probing the branches -/

def Reply.append (r q : Reply) : Reply :=
  match r.error with
  | some _ => r
  | none => ⟨r.sets ++ q.sets, q.error⟩

def Reply.concat (replies : List (Handle → Reply)) (h : Handle) : Reply :=
  replies.foldr (fun reply r => (reply h).append r) .absent

namespace Search

variable {Is : List Index} {replies : List (Handle → Reply)} {h : Handle}

def fromBranch (replies : List (Handle → Reply)) (h : Handle) (i : Nat) : Reply :=
  Reply.concat (replies.drop i) h

theorem fromBranch_eq {i : Nat} (hi : i < replies.length) :
    fromBranch replies h i = (replyAt replies i h).append (fromBranch replies h (i + 1)) := by
  unfold fromBranch
  rw [List.drop_eq_getElem_cons hi]
  simp only [replyAt, List.getElem?_eq_getElem hi]
  rfl

theorem fromBranch_end {i : Nat} (hi : replies.length ≤ i) : fromBranch replies h i = .absent := by
  unfold fromBranch
  rw [List.drop_eq_nil_iff.2 hi]
  rfl

def Focus (replies : List (Handle → Reply)) (h : Handle) (i : Nat) (r : Reply) :
    GroupState Is → Prop :=
  GroupState.Each Is fun j I s => I.Ready (replyAt replies j) s ∧
    (j = i → I.Offers h r.error (fun _ => I.Ready (replyAt replies j)) r.sets s)

theorem Focus.ready {i : Nat} {r : Reply} {g : GroupState Is} (hg : Focus replies h i r g) :
    GroupState.Ready Is replies g :=
  hg.mono fun _ _ _ hs => hs.1

/-! ### Turns and moves -/

section

variable {i : Nat} {g g' : GroupState Is} {b : Search Is}

theorem turn_found (ht : GroupState.turnAt Is i g .never = ⟨.found (), g', .never⟩) :
    (Index.union Is).turn ⟨g, some h, some i⟩ .never =
      ⟨.found (), ⟨g', some h, some i⟩, .never⟩ := by
  show @Search.turn Is ⟨g, some h, some i⟩ .never = _
  unfold Search.turn
  simp only [ht]
  rfl

theorem turn_failed {e : QueryError}
    (ht : GroupState.turnAt Is i g .never = ⟨.failed e, g', .never⟩) :
    (Index.union Is).turn ⟨g, some h, some i⟩ .never =
      ⟨.failed e, ⟨g', some h, some i⟩, .never⟩ := by
  show @Search.turn Is ⟨g, some h, some i⟩ .never = _
  unfold Search.turn
  simp only [ht]
  rfl

/-- Once a branch has nothing more, the union moves on. -/
theorem turn_nothing (ht : GroupState.turnAt Is i g .never = ⟨.nothing, g', .never⟩) :
    (Index.union Is).turn ⟨g, some h, some i⟩ .never =
      moveTo ⟨g, some h, some i⟩ h (i + 1) g' .never := by
  show @Search.turn Is ⟨g, some h, some i⟩ .never = _
  unfold Search.turn
  simp only [ht]

theorem seek_of_lt (hi : i < Is.length) :
    ∃ n, Is.length - i = n + 1 ∧ Is.length - (i + 1) = n :=
  ⟨Is.length - (i + 1), by omega, rfl⟩

theorem moveTo_found (hi : i < Is.length) (hb : b.candidate = some h)
    (hc : GroupState.containsAt Is i h g .never = ⟨.found (), g', .never⟩) :
    b.moveTo h i g .never = ⟨.found (), ⟨g', some h, some i⟩, .never⟩ := by
  obtain ⟨n, hn, -⟩ := seek_of_lt hi
  simp only [moveTo, hn, seek, Token.check_never, hc, hb]
  rfl

theorem moveTo_failed (hi : i < Is.length) (hb : b.candidate = some h) {e : QueryError}
    (hc : GroupState.containsAt Is i h g .never = ⟨.failed e, g', .never⟩) :
    b.moveTo h i g .never = ⟨.failed e, ⟨g', some h, none⟩, .never⟩ := by
  obtain ⟨n, hn, -⟩ := seek_of_lt hi
  simp only [moveTo, hn, seek, Token.check_never, hc, hb]
  rfl

theorem moveTo_nothing (hi : i < Is.length)
    (hc : GroupState.containsAt Is i h g .never = ⟨.nothing, g', .never⟩) :
    b.moveTo h i g .never = b.moveTo h (i + 1) g' .never := by
  obtain ⟨n, hn, hn'⟩ := seek_of_lt hi
  simp only [moveTo, hn, hn', seek, Token.check_never, hc]

end

/-! ### Looking through the branches -/

def Moved (replies : List (Handle → Reply)) (h : Handle) (r : Reply) (b' : Search Is) : Prop :=
  (r.answer = .nothing → GroupState.Ready Is replies b'.branches) ∧
    (r.answer = .found () → (Index.union Is).Offers h r.error
      (fun _ d => d.status = {} ∧ GroupState.Ready Is replies d.body.branches) r.sets ⟨{}, b'⟩)

/-! ### The branch that is shown -/

section

variable {i : Nat} {t : Tags} {sets : List Tags} {error : Option QueryError} {g : GroupState Is}

theorem Focus.tagsAt (hi : i < Is.length) (hg : Focus replies h i ⟨t :: sets, error⟩ g) :
    GroupState.tagsAt Is i g = t := by
  refine GroupState.Each.tagsAt hi hg fun I s hs => ?_
  have ho := hs.2 rfl
  cases sets with
  | nil => exact ho.2.1
  | cons u sets => exact ho.2.1

theorem Focus.later {u : Tags} (hi : i < Is.length)
    (hg : Focus replies h i ⟨t :: u :: sets, error⟩ g) :
    ∃ g', GroupState.turnAt Is i g .never = ⟨.found (), g', .never⟩ ∧
      Focus replies h i ⟨u :: sets, error⟩ g' := by
  obtain ⟨g', hturn, hg'⟩ := GroupState.Each.turnAt hi hg
    (R := fun I s => I.Offers h error (fun _ => I.Ready (replyAt replies i)) (u :: sets) s)
    (a := .found ()) fun I s hs => (hs.2 rfl).2.2.2
  refine ⟨g', hturn, hg'.mono fun j I s hs => ?_⟩
  by_cases hj : j = i
  · subst hj
    rw [if_pos rfl] at hs
    exact ⟨hs.start, fun _ => hs⟩
  · rw [if_neg hj] at hs
    exact ⟨hs.1, fun hh => absurd hh hj⟩

theorem Focus.broken {e : QueryError} (hi : i < Is.length)
    (hg : Focus replies h i ⟨[t], some e⟩ g) :
    ∃ g', GroupState.turnAt Is i g .never = ⟨.failed e, g', .never⟩ := by
  obtain ⟨g', hturn, -⟩ := GroupState.Each.turnAt hi hg (R := fun _ _ => True)
    (a := .failed e) fun I s hs => by
      obtain ⟨-, -, -, s', hn⟩ := hs.2 rfl
      exact ⟨s', hn, trivial⟩
  exact ⟨g', hturn⟩

theorem Focus.over (hi : i < Is.length) (hg : Focus replies h i ⟨[t], none⟩ g) :
    ∃ g', GroupState.turnAt Is i g .never = ⟨.nothing, g', .never⟩ ∧
      GroupState.Ready Is replies g' := by
  obtain ⟨g', hturn, hg'⟩ := GroupState.Each.turnAt hi hg
    (R := fun I => I.Ready (replyAt replies i)) (a := .nothing) fun I s hs => by
      obtain ⟨-, -, -, s', hn, hs'⟩ := hs.2 rfl
      exact ⟨s', hn, hs'⟩
  refine ⟨g', hturn, hg'.mono fun j I s hs => ?_⟩
  by_cases hj : j = i
  · subst hj
    rwa [if_pos rfl] at hs
  · rw [if_neg hj] at hs
    exact hs.1

end

/-- The binding sets of the branch shown come first, and then those of the branches after it. -/
theorem Focus.offers {i : Nat} (hi : i < Is.length) {q : Reply}
    (hq : ∀ g : GroupState Is, GroupState.Ready Is replies g →
      ∃ b', moveTo ⟨g, some h, some i⟩ h (i + 1) g .never = ⟨q.answer, b', .never⟩ ∧
        Moved replies h q b')
    {r : Reply} {g : GroupState Is} (hg : Focus replies h i r g) :
    (Index.union Is).Offers h (r.append q).error
      (fun _ d => d.status = {} ∧ GroupState.Ready Is replies d.body.branches) (r.append q).sets
      ⟨{}, ⟨g, some h, some i⟩⟩ := by
  obtain ⟨sets, error⟩ := r
  induction sets generalizing g with
  | nil =>
      obtain ⟨_, _, hs⟩ := GroupState.Each.at hi hg
      exact (hs.2 rfl).elim
  | cons t sets ih =>
      have hresult : (Index.union Is).result ⟨{}, ⟨g, some h, some i⟩⟩ = some h := rfl
      have htags : (Index.union Is).tags ⟨{}, ⟨g, some h, some i⟩⟩ = t := hg.tagsAt hi
      cases sets with
      | cons u sets =>
          obtain ⟨g', hturn, hf⟩ := hg.later hi
          have hrest := ih hf
          have hn := Cursor.nextPath_never (C := (Index.union Is).toCursor) rfl
            (turn_found (h := h) hturn)
          cases error with
          | none => exact ⟨hresult, htags, ⟨rfl, hg.ready⟩, _, hn, hrest⟩
          | some e => exact ⟨hresult, htags, ⟨rfl, hg.ready⟩, _, hn, hrest⟩
      | nil =>
          cases error with
          | some e =>
              obtain ⟨g', hturn⟩ := hg.broken hi
              exact ⟨hresult, htags, ⟨rfl, hg.ready⟩, _,
                Cursor.nextPath_never rfl (turn_failed hturn)⟩
          | none =>
              obtain ⟨g', hturn, hready⟩ := hg.over hi
              obtain ⟨b', hmove, hnothing, hfound⟩ := hq g' hready
              have hn := Cursor.nextPath_never (C := (Index.union Is).toCursor) rfl
                ((turn_nothing hturn).trans hmove)
              rw [show Reply.append ⟨[t], none⟩ q = ⟨t :: q.sets, q.error⟩ from rfl]
              obtain ⟨qsets, qerror⟩ := q
              cases qsets with
              | cons u us =>
                  exact ⟨hresult, htags, ⟨rfl, hg.ready⟩, _, hn, hfound rfl⟩
              | nil =>
                  cases qerror with
                  | none =>
                      exact ⟨hresult, htags, ⟨rfl, hg.ready⟩, _, hn, rfl, hnothing rfl⟩
                  | some e => exact ⟨hresult, htags, ⟨rfl, hg.ready⟩, _, hn⟩

/-- Looking on from a position moves to the first branch that holds the handle. -/
theorem exists_moveTo (hl : Is.length = replies.length) (n : Nat) :
    ∀ (i : Nat), Is.length - i = n → ∀ (b : Search Is) (g : GroupState Is),
      b.candidate = some h → GroupState.Ready Is replies g →
      ∃ b', b.moveTo h i g .never = ⟨(fromBranch replies h i).answer, b', .never⟩ ∧
        Moved replies h (fromBranch replies h i) b' := by
  induction n with
  | zero =>
      intro i hi b g hb hg
      rw [fromBranch_end (by omega)]
      refine ⟨⟨g, b.candidate, none⟩, ?_, fun _ => hg, by simp⟩
      unfold moveTo
      rw [hi]
      rfl
  | succ n ih =>
      intro i hi b g hb hg
      have hlt : i < Is.length := by omega
      obtain ⟨g', hc, hfound, hnothing⟩ := (hg.stands h).containsAt hlt
      rw [fromBranch_eq (hl ▸ hlt)]
      have hnext : ∀ (b : Search Is) (g : GroupState Is), b.candidate = some h →
          GroupState.Ready Is replies g → _ := ih (i + 1) (by omega)
      cases hr : replyAt replies i h with
      | mk sets error =>
          rw [hr] at hfound hnothing hc
          cases sets with
          | cons t sets =>
              refine ⟨⟨g', some h, some i⟩, ?_,
                by cases error <;> simp [Reply.append, Reply.answer], fun _ => ?_⟩
              · rw [moveTo_found hlt hb hc]
                cases error <;> rfl
              · refine Focus.offers hlt (fun g hg => hnext _ g rfl hg) ?_
                refine GroupState.Each.mono (fun j I s hs => ⟨hs.1, fun hj => ?_⟩) (hfound rfl)
                subst hj
                have ho := (hs.2 (.inl rfl)).2
                rwa [hr] at ho
          | nil =>
              cases error with
              | none =>
                  have hmove := hnext b g' hb (hnothing rfl)
                  rwa [← moveTo_nothing hlt hc] at hmove
              | some e => exact ⟨_, moveTo_failed hlt hb hc, by simp [Reply.append, Reply.answer],
                  by simp [Reply.append, Reply.answer]⟩

/-- A turn leaves every branch ready, unless it fails. -/
theorem turn_ready (hl : Is.length = replies.length) {b : Search Is}
    (hb : GroupState.Ready Is replies b.branches) :
    ∃ a b', b.turn .never = ⟨a, b', .never⟩ ∧
      (a.error? = none → GroupState.Ready Is replies b'.branches) := by
  obtain ⟨g, candidate, current⟩ := b
  cases current with
  | none => exact ⟨.nothing, ⟨g, candidate, none⟩, rfl, fun _ => hb⟩
  | some i =>
      cases candidate with
      | none => exact ⟨.nothing, ⟨g, none, some i⟩, rfl, fun _ => hb⟩
      | some h =>
          obtain ⟨a, g', ht, ha⟩ := hb.turnAt i
          cases a with
          | found u => exact ⟨_, _, turn_found ht, ha⟩
          | failed e => exact ⟨_, _, turn_failed ht, by simp [Answer.error?]⟩
          | nothing =>
              obtain ⟨b', hm, hnothing, hfound⟩ := exists_moveTo hl _ (i + 1) rfl
                ⟨g, some h, some i⟩ g' rfl (ha rfl)
              refine ⟨_, b', (turn_nothing ht).trans hm, fun hok => ?_⟩
              cases hr : (fromBranch replies h (i + 1)).answer with
              | nothing => exact hnothing hr
              | found u => exact (hfound hr).start.2
              | failed e => simp [hr, Answer.error?] at hok

end Search

theorem Index.ready_union {Is : List Index} {replies : List (Handle → Reply)}
    (hr : List.Forall₂ (fun I reply => I.Ready reply I.fresh) Is replies) :
    (Index.union Is).Ready (Reply.concat replies) (Index.union Is).fresh := by
  refine Index.ready_of_closed (I := Index.union Is)
    (fun d => d.status = {} ∧ GroupState.Ready Is replies d.body.branches) ?_ ?_
    ⟨rfl, GroupState.ready_fresh hr⟩
  · intro d hd
    obtain ⟨_, b⟩ := d
    obtain ⟨hst, hg⟩ := hd
    subst hst
    obtain ⟨a, b', ht, ha⟩ := Search.turn_ready hr.length_eq hg
    exact Index.endures_of_turn (I := Index.union Is) ⟨rfl, hg⟩ ht fun hok => ⟨rfl, ha hok⟩
  intro d hd h
  obtain ⟨_, b⟩ := d
  obtain ⟨hst, hg⟩ := hd
  subst hst
  obtain ⟨b', hm, hnothing, hfound⟩ := Search.exists_moveTo (h := h) hr.length_eq _ 0 rfl
    ⟨b.branches, some h, none⟩ b.branches rfl hg
  exact Index.answers_of_probe hm (fun ha => ⟨rfl, hnothing ha⟩) hfound

/-! ## Both roles -/

def Meaning.union (Ms : List Meaning) : Meaning :=
  ⟨.concat (Ms.map Meaning.feed), Reply.concat (Ms.map Meaning.reply)⟩

theorem Roles.Realizes.union {Rs : List Roles} {Ms : List Meaning}
    (hR : List.Forall₂ Roles.Realizes Rs Ms) : (Roles.union Rs).Realizes (.union Ms) where
  shows := by
    refine Scanner.shows_union ?_
    rw [List.forall₂_map_left_iff, List.forall₂_map_right_iff]
    exact hR.imp fun _ _ h => h.shows
  ready := by
    refine Index.ready_union ?_
    rw [List.forall₂_map_left_iff, List.forall₂_map_right_iff]
    exact hR.imp fun _ _ h => h.ready

end GraphQuery
