import GraphQuery.Cursor.Leaf
import GraphQuery.Cursor.Naming
import GraphQuery.Proofs.Feed.Basic

/-!
# What leaves and named cursors show

A list shows its handles, each with the empty binding set. Naming adds bindings to every binding
set of whatever is shown.
-/

namespace GraphQuery

/-! ## Leaves -/

def Row.bare (h : Handle) : Row :=
  ⟨h, [.empty]⟩

def Reply.ofMem (mem : Handle → Bool) (h : Handle) : Reply :=
  if mem h then .ofSets [.empty] else .absent

theorem Scanner.shows_ofList (handles : List Handle) :
    (Scanner.ofList handles).Shows (.ofRows (handles.map .bare))
      (Scanner.ofList handles).fresh := by
  have key : ∀ (rest : List Handle) (c : Option Handle),
      (Scanner.ofList handles).Shows (.ofRows (rest.map .bare)) ⟨{}, ⟨c, rest⟩⟩ := by
    intro rest
    induction rest with
    | nil =>
        intro c
        exact ⟨_, Scanner.next_never rfl rfl⟩
    | cons h rest ih =>
        intro c
        refine ⟨⟨{}, ⟨some h, rest⟩⟩, Scanner.next_never rfl rfl, rfl, rfl, ih _, ?_⟩
        exact ⟨_, rfl, ih _⟩
  exact key handles none

theorem Index.ready_ofMem (mem : Handle → Bool) :
    (Index.ofMem mem).Ready (Reply.ofMem mem) (Index.ofMem mem).fresh := by
  refine Index.ready_of_closed (fun s => s.status = {}) (fun s hs => ⟨_, s, rfl, fun _ => hs⟩) ?_
    rfl
  intro s hs h
  obtain ⟨_, b⟩ := s
  subst hs
  unfold Reply.ofMem
  by_cases hm : mem h = true
  · rw [if_pos hm]
    refine Index.answers_of_probe (c := some h) ?_ (fun _ => rfl)
      fun _ => ⟨rfl, rfl, rfl, _, rfl, rfl⟩
    simp only [Index.ofMem, hm, if_true]
    rfl
  · rw [if_neg hm]
    refine Index.answers_of_probe (c := none) ?_ (fun _ => rfl) (by simp)
    simp only [Index.ofMem, hm, Bool.false_eq_true, if_false]
    rfl

def Meaning.leaf (handles : List Handle) (mem : Handle → Bool) : Meaning :=
  ⟨.ofRows (handles.map .bare), Reply.ofMem mem⟩

theorem Roles.realizes_leaf (handles : List Handle) (mem : Handle → Bool) :
    Roles.Realizes ⟨.ofList handles, .ofMem mem⟩ (.leaf handles mem) :=
  ⟨Scanner.shows_ofList handles, Index.ready_ofMem mem⟩

/-! ## Names -/

def Feed.mapSets (g : Handle → Tags → Tags) : Feed → Feed
  | .done => .done
  | .failed e => .failed e
  | .row h sets rest => .row h (sets.map (g h)) fun k => (rest k).mapSets g

section Naming

variable {names : List String} {h : Handle} {error : Option QueryError}

theorem Cursor.Offers.naming {C : Cursor} {after : Nat → C.State → Prop}
    {after' : Nat → (C.naming names).State → Prop} {sets : List Tags} {s : C.State}
    (ho : C.Offers h error after sets s) (ha : ∀ k s, after k s → after' k ⟨{}, s⟩) :
    (C.naming names).Offers h error after' (sets.map fun u => u.insertAll names h) ⟨{}, s⟩ := by
  refine ho.wrap (D := C.naming names) id (fun u => u.insertAll names h) (fun _ hr => hr) ?_
    (fun _ => rfl) (fun _ _ => rfl) ha
  intro s hr
  simp only [Cursor.naming, id, hr]

theorem Scanner.Shows.naming {S : Scanner} {F : Feed} {s : S.State} (hs : S.Shows F s) :
    (S.naming names).Shows (F.mapSets fun h u => u.insertAll names h) ⟨{}, s⟩ := by
  induction F generalizing s with
  | done =>
      obtain ⟨s', hn⟩ := hs
      exact ⟨_, Scanner.next_never rfl hn⟩
  | failed e =>
      obtain ⟨s', hn⟩ := hs
      exact ⟨_, Scanner.next_never rfl hn⟩
  | row h sets rest ih =>
      obtain ⟨s', hn, ho⟩ := hs
      exact ⟨⟨{}, s'⟩, Scanner.next_never rfl hn, ho.naming fun k s hs => ih k hs⟩

theorem Index.Ready.naming {I : Index} {reply : Handle → Reply} {s : I.State}
    (hs : I.Ready reply s) :
    (I.naming names).Ready (fun h => (reply h).mapSets fun u => u.insertAll names h) ⟨{}, s⟩ := by
  refine Index.ready_of_closed (fun d => ∃ s, d = ⟨{}, s⟩ ∧ I.Ready reply s) ?_ ?_ ⟨s, rfl, hs⟩
  · intro d hd
    obtain ⟨s, rfl, hs⟩ := hd
    obtain ⟨a, s', hn, ha⟩ := hs.endures
    exact Index.endures_of_turn (I := I.naming names) ⟨s, rfl, hs⟩ hn fun hok => ⟨s', rfl, ha hok⟩
  intro d hd h
  obtain ⟨s, rfl, hs⟩ := hd
  obtain ⟨s', hk, hn, hf⟩ := hs.answers h
  refine Index.answers_of_probe (c := s') ?_ (fun ha => ⟨s', rfl, hn ?_⟩) fun ha => ?_
  · rw [Reply.answer_mapSets]
    exact hk
  · rwa [Reply.answer_mapSets] at ha
  · rw [Reply.answer_mapSets] at ha
    exact (hf ha).naming fun _ s hs => ⟨s, rfl, hs⟩

end Naming

def Meaning.naming (M : Meaning) (names : List String) : Meaning :=
  ⟨M.feed.mapSets fun h u => u.insertAll names h,
    fun h => (M.reply h).mapSets fun u => u.insertAll names h⟩

theorem Roles.Realizes.naming {R : Roles} {M : Meaning} (hR : R.Realizes M) (names : List String) :
    (R.naming names).Realizes (M.naming names) :=
  ⟨hR.shows.naming, hR.ready.naming⟩

end GraphQuery
