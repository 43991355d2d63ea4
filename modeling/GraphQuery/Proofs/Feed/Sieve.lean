import GraphQuery.Cursor.Mapped
import GraphQuery.Cursor.Sieve
import GraphQuery.Proofs.Feed.Basic

/-!
# What judged cursors show

A judge comes to a verdict on each result and may keep a memory. Results that it finds nothing in
are passed over; a find becomes a row of the feed. Sieves, mapped scanners and the drivers of joins
are all such feeds, so one induction on the feed serves them.
-/

namespace GraphQuery

abbrev Verdicts (α μ : Type) : Type :=
  Handle → μ → Answer α × μ

/-- The finds in a feed. `build` makes the row of a find from its binding sets and from what comes
after each number of turns at the result. -/
def Feed.sift {α μ : Type} (verdicts : Verdicts α μ)
    (build : α → Handle → List Tags → (Nat → Feed) → Feed) : Feed → μ → Feed
  | .done, _ => .done
  | .failed e, _ => .failed e
  | .row h sets rest, m =>
      match (verdicts h m).1 with
      | .found a => build a h sets fun k => (rest k).sift verdicts build (verdicts h m).2
      | .nothing => (rest 0).sift verdicts build (verdicts h m).2
      | .failed e => .failed e

/-- The judge comes to these verdicts and shows `image h a` for a find `a`. Its state answers to the
memory in one way between the verdicts and in another after a find. -/
structure Judges {α τ μ : Type} (judge : Handle → τ → Token → Outcome Handle τ)
    (image : Handle → α → Handle) (verdicts : Verdicts α μ) (idle : μ → τ → Prop)
    (held : Handle → α → μ → τ → Prop) : Prop where
  judged : ∀ h m x, idle m x → ∃ x',
    judge h x .never = ⟨(verdicts h m).1.map (image h), x', .never⟩ ∧
      (∀ a, (verdicts h m).1 = .found a → held h a (verdicts h m).2 x') ∧
      ((verdicts h m).1 = .nothing → idle (verdicts h m).2 x')

namespace Scanner

section Sift

variable {α τ : Type} {S : Scanner} {judge : Handle → τ → Token → Outcome α τ}
  {s s' : S.State} {x : τ} {h : Handle}

theorem sift_nothing (hn : S.next s .never = ⟨.nothing, s', .never⟩) :
    S.sift judge s x .never = ⟨.nothing, (s', x), .never⟩ := by
  rw [Scanner.sift]
  dsimp only
  split <;> simp_all

theorem sift_failed {e : QueryError} (hn : S.next s .never = ⟨.failed e, s', .never⟩) :
    S.sift judge s x .never = ⟨.failed e, (s', x), .never⟩ := by
  rw [Scanner.sift]
  dsimp only
  split <;> simp_all

theorem sift_found {x' : τ} {a : α} (hn : S.next s .never = ⟨.found h, s', .never⟩)
    (hj : judge h x .never = ⟨.found a, x', .never⟩) :
    S.sift judge s x .never = ⟨.found a, (s', x'), .never⟩ := by
  rw [Scanner.sift]
  dsimp only
  split <;> simp_all

theorem sift_refused {x' : τ} {e : QueryError} (hn : S.next s .never = ⟨.found h, s', .never⟩)
    (hj : judge h x .never = ⟨.failed e, x', .never⟩) :
    S.sift judge s x .never = ⟨.failed e, (s', x'), .never⟩ := by
  rw [Scanner.sift]
  dsimp only
  split <;> simp_all

theorem sift_passed {x' : τ} (hn : S.next s .never = ⟨.found h, s', .never⟩)
    (hj : judge h x .never = ⟨.nothing, x', .never⟩) :
    S.sift judge s x .never = S.sift judge s' x' .never := by
  rw [Scanner.sift]
  dsimp only
  split <;> simp_all

end Sift

/-- A scanner that pulls by sifting another one shows the finds, if it shows each outcome of a
single sift as it should. `A` ties its states to those of the scanner sifted and of the judge. -/
theorem Shows.sift {α τ μ : Type} {S D : Scanner} {judge : Handle → τ → Token → Outcome Handle τ}
    {image : Handle → α → Handle} {verdicts : Verdicts α μ} {idle : μ → τ → Prop}
    {held : Handle → α → μ → τ → Prop} {build : α → Handle → List Tags → (Nat → Feed) → Feed}
    {A : S.State → τ → D.State → Prop} (hj : Judges judge image verdicts idle held)
    (hdone : ∀ {s x d s' x'}, A s x d → S.sift judge s x .never = ⟨.nothing, (s', x'), .never⟩ →
      D.Shows .done d)
    (hfailed : ∀ {s x d e s' x'}, A s x d →
      S.sift judge s x .never = ⟨.failed e, (s', x'), .never⟩ → D.Shows (.failed e) d)
    (hfound : ∀ {s x d a s' x' h m sets} {rest rest' : Nat → Feed}, A s x d →
      S.sift judge s x .never = ⟨.found (image h a), (s', x'), .never⟩ → held h a m x' →
      S.Offers h none (fun k => S.Shows (rest k)) sets s' →
      (∀ k s x d, S.Shows (rest k) s → idle m x → A s x d → D.Shows (rest' k) d) →
      D.Shows (build a h sets rest') d)
    {F : Feed} {s : S.State} {m : μ} {x : τ} {d : D.State} (hs : S.Shows F s) (hm : idle m x)
    (hd : A s x d) : D.Shows (F.sift verdicts build m) d := by
  -- Passing over a result leaves the outcome of the sift that was begun at `d`.
  suffices key : ∀ {F s m x} {s₀ : S.State} {x₀ : τ} {d}, A s₀ x₀ d →
      S.sift judge s₀ x₀ .never = S.sift judge s x .never → S.Shows F s → idle m x →
      D.Shows (F.sift verdicts build m) d by
    exact key hd rfl hs hm
  clear hs hm hd
  intro F
  induction F with
  | done =>
      intro s m x s₀ x₀ d hd heq hs hm
      obtain ⟨s', hn⟩ := hs
      exact hdone hd (heq.trans (sift_nothing hn))
  | failed e =>
      intro s m x s₀ x₀ d hd heq hs hm
      obtain ⟨s', hn⟩ := hs
      exact hfailed hd (heq.trans (sift_failed hn))
  | row h sets rest ih =>
      intro s m x s₀ x₀ d hd heq hs hm
      obtain ⟨s', hn, ho⟩ := hs
      obtain ⟨x', hv, hfind, hpass⟩ := hj.judged h m x hm
      unfold Feed.sift
      cases ha : (verdicts h m).1 with
      | found a =>
          rw [ha] at hv
          exact hfound hd (heq.trans (sift_found hn hv)) (hfind a ha) ho
            fun k s x d hs hm hd => ih k hd rfl hs hm
      | nothing =>
          rw [ha] at hv
          exact ih 0 hd (heq.trans (sift_passed hn hv)) ho.start (hpass ha)
      | failed e =>
          rw [ha] at hv
          exact hfailed hd (heq.trans (sift_refused hn hv))

end Scanner

/-! ## Sieves -/

abbrev Feed.sieve {μ : Type} (verdicts : Verdicts Unit μ) (F : Feed) (m : μ) : Feed :=
  F.sift verdicts (fun _ => .row) m

def Reply.sieve (verdict : Handle → Answer Unit) (reply : Handle → Reply) (h : Handle) : Reply :=
  match verdict h with
  | .found _ => reply h
  | .nothing => .absent
  | .failed e => .failure e

section Sieve

variable {κ μ : Type} {memory : κ} {forget : κ → κ}
  {judge : Handle → κ → Token → Outcome Unit κ}

theorem Cursor.Offers.beside {C : Cursor} {h : Handle} {error : Option QueryError}
    {after : Nat → C.State → Prop} {after' : Nat → (C.beside memory forget).State → Prop}
    {sets : List Tags} {s : C.State} {x : κ} (ho : C.Offers h error after sets s)
    (ha : ∀ k s, after k s → after' k ⟨{}, (s, x)⟩) :
    (C.beside memory forget).Offers h error after' sets ⟨{}, (s, x)⟩ := by
  have hw : (C.beside memory forget).Offers h error after' (sets.map id) ⟨{}, (s, x)⟩ :=
    ho.wrap (D := C.beside memory forget) (fun s => (s, x)) id (fun _ hr => hr) (fun _ _ => rfl)
      (fun _ => rfl) (fun _ _ => rfl) ha
  rwa [List.map_id] at hw

theorem Scanner.Shows.sieve {S : Scanner} {verdicts : Verdicts Unit μ} {idle : μ → κ → Prop}
    (hj : Judges (accepting judge) (fun h _ => h) verdicts idle fun _ _ => idle) {F : Feed}
    {s : S.State} {m : μ} {x : κ} (hs : S.Shows F s) (hm : idle m x) :
    (S.sieve memory forget judge).Shows (F.sieve verdicts m) ⟨{}, (s, x)⟩ := by
  have next : ∀ {s x s' x' a}, S.sift (accepting judge) s x .never = ⟨a, (s', x'), .never⟩ →
      (S.sieve memory forget judge).next ⟨{}, (s, x)⟩ .never =
        ⟨a, ⟨⟨a.error?, false⟩, (s', x')⟩, .never⟩ :=
    fun hp => Scanner.next_never rfl hp
  refine Scanner.Shows.sift (A := fun s x d => d = ⟨{}, (s, x)⟩) hj ?_ ?_ ?_ hs hm rfl
  · intro s x d s' x' hd hp
    subst hd
    exact ⟨_, next hp⟩
  · intro s x d e s' x' hd hp
    subst hd
    exact ⟨_, next hp⟩
  · intro s x d a s' x' h m sets rest rest' hd hp hm ho hr
    subst hd
    exact ⟨_, next hp, ho.beside fun k s hs => hr k s x' _ hs hm rfl⟩

theorem Index.Ready.sieve {I : Index} {verdict : Handle → Answer Unit} {idle : κ → Prop}
    (hj : ∀ h x, idle x → ∃ x', judge h x .never = ⟨verdict h, x', .never⟩ ∧
      ((verdict h).error? = none → idle x'))
    {reply : Handle → Reply} {s : I.State} {x : κ} (hs : I.Ready reply s) (hx : idle x) :
    (I.sieve memory forget judge).Ready (Reply.sieve verdict reply) ⟨{}, (s, x)⟩ := by
  refine Index.ready_of_closed
    (fun d => ∃ s x, d = ⟨{}, (s, x)⟩ ∧ I.Ready reply s ∧ idle x) ?_ ?_ ⟨s, x, rfl, hs, hx⟩
  · intro d hd
    obtain ⟨s, x, rfl, hs, hx⟩ := hd
    obtain ⟨a, s', hn, ha⟩ := hs.endures
    have ht : (I.sieve memory forget judge).turn (s, x) .never = ⟨a, (s', x), .never⟩ := by
      show (I.nextPath s .never).inState (fun s => (s, x)) = _
      rw [hn]
      rfl
    exact Index.endures_of_turn ⟨s, x, rfl, hs, hx⟩ ht fun hok => ⟨s', x, rfl, ha hok, hx⟩
  intro d hd h
  obtain ⟨s, x, rfl, hs, hx⟩ := hd
  obtain ⟨x', hv, hx'⟩ := hj h x hx
  have probe : (I.sieve memory forget judge).probe h ((I.sieve memory forget judge).aim h (s, x))
      .never = Outcome.andThen (⟨verdict h, x', .never⟩ : Outcome Unit κ)
        (fun _ k t => (I.contains h s t).inState fun s => (s, k)) (fun k => (s, k)) := by
    rw [← hv]
    rfl
  unfold Reply.sieve
  cases hc : verdict h with
  | nothing =>
      rw [hc] at probe hx'
      exact Index.answers_of_probe probe (fun _ => ⟨s, x', rfl, hs, hx' rfl⟩)
        (by simp)
  | failed e =>
      rw [hc] at probe
      exact Index.answers_of_probe probe (by simp) (by simp)
  | found u =>
      rw [hc] at probe hx'
      obtain ⟨s', hk, hn, hf⟩ := hs.answers h
      show Index.Answers _ _ h _ (reply h)
      refine Index.answers_of_probe (c := (s', x')) ?_ (fun ha => ⟨s', x', rfl, hn ha, hx' rfl⟩)
        fun ha => ?_
      · rw [probe]
        simp only [Outcome.andThen, hk, Outcome.inState]
        rfl
      · exact (hf ha).beside fun _ s hs => ⟨s, x', rfl, hs, hx' rfl⟩

end Sieve

abbrev Verdicts.plain {α : Type} (verdict : Handle → Answer α) : Verdicts α Unit :=
  fun h x => (verdict h, x)

/-- A judge whose state never affects its verdict, as long as it has not failed. -/
theorem Judges.plain {κ : Type} {judge : Handle → κ → Token → Outcome Unit κ}
    {verdict : Handle → Answer Unit} {idle : κ → Prop}
    (hj : ∀ h x, idle x → ∃ x', judge h x .never = ⟨verdict h, x', .never⟩ ∧
      ((verdict h).error? = none → idle x')) :
    Judges (accepting judge) (fun h _ => h) (.plain verdict) (fun _ => idle)
      fun _ _ _ => idle where
  judged h m x hx := by
    obtain ⟨x', hv, hx'⟩ := hj h x hx
    have ok : ∀ {a : Answer Unit}, verdict h = a → a.error? = none → idle x' :=
      fun ha he => hx' (ha ▸ he)
    exact ⟨x', by rw [accepting, hv]; rfl, fun _ ha => ok ha rfl, fun ha => ok ha rfl⟩

def Meaning.sieve (M : Meaning) (onResult onCandidate : Handle → Answer Unit) : Meaning :=
  ⟨M.feed.sieve (.plain onResult) (), Reply.sieve onCandidate M.reply⟩

theorem Roles.Realizes.testing {R : Roles} {M : Meaning} (hR : R.Realizes M) (store : QuadStore)
    (test : Value → Except String Bool) :
    (R.testing store test).Realizes
      (M.sieve (verdictOn store test fun h => .failed (.unknownHandle h))
        (verdictOn store test fun _ => .nothing)) where
  shows := hR.shows.sieve (.plain fun _ x (_ : True) => ⟨x, rfl, fun _ => trivial⟩) trivial
  ready := hR.ready.sieve (fun _ x (_ : True) => ⟨x, rfl, fun _ => trivial⟩) trivial

/-! ## What another index does not hold -/

def Reply.forbid (r : Reply) : Answer Unit :=
  match r.answer with
  | .found _ => .nothing
  | .nothing => .found ()
  | .failed e => .failed e

theorem Index.Ready.forbid {I : Index} {reply : Handle → Reply} {s : I.State}
    (hs : I.Ready reply s) (h : Handle) :
    ∃ s', I.forbid h s .never = ⟨(reply h).forbid, s', .never⟩ ∧
      ((reply h).forbid.error? = none → I.Ready reply s') := by
  obtain ⟨s', hk, hn, hf⟩ := hs.answers h
  unfold Index.forbid Reply.forbid
  refine ⟨s', ?_, ?_⟩
  · simp only [hk]
    cases (reply h).answer <;> rfl
  · cases ha : (reply h).answer with
    | found u => exact fun _ => (hf ha).start
    | nothing => exact fun _ => hn ha
    | failed e => simp [Answer.error?]

theorem Roles.Realizes.without {whole forbidden : Roles} {M N : Meaning} (hM : whole.Realizes M)
    (hN : forbidden.Realizes N) :
    (whole.without forbidden).Realizes
      (M.sieve (fun h => (N.reply h).forbid) fun h => (N.reply h).forbid) where
  shows := hM.shows.sieve (.plain fun h _ hs => hs.forbid h) hN.ready
  ready := hM.ready.sieve (fun h _ hs => hs.forbid h) hN.ready

/-! ## What has not been seen before -/

def Verdicts.firsts : Verdicts Unit (List Handle) :=
  fun h seen => if seen.contains h then (.nothing, seen) else (.found (), h :: seen)

def Feed.firsts (F : Feed) : Feed :=
  F.sieve .firsts []

theorem Scanner.Shows.firsts {S : Scanner} {F : Feed} (hs : S.Shows F S.fresh) :
    S.firsts.Shows F.firsts S.firsts.fresh := by
  refine hs.sieve ⟨fun h m x (hm : x = m) => ?_⟩ rfl
  subst hm
  by_cases hc : x.contains h = true
  · have hv : Verdicts.firsts h x = (.nothing, x) := if_pos hc
    have ha : acceptNew h x .never = ⟨.nothing, x, .never⟩ := if_pos hc
    rw [accepting, ha, hv]
    exact ⟨x, rfl, fun _ _ => rfl, fun _ => rfl⟩
  · have hv : Verdicts.firsts h x = (.found (), h :: x) := if_neg hc
    have ha : acceptNew h x .never = ⟨.found (), h :: x, .never⟩ := if_neg hc
    rw [accepting, ha, hv]
    exact ⟨h :: x, rfl, fun _ _ => rfl, fun _ => rfl⟩

/-! ## Images -/

def Feed.mapped (store : QuadStore) (f : Value → Except String Value) (F : Feed) : Feed :=
  F.sift (.plain (imageOf store f)) (fun image _ => .row image) ()

theorem Scanner.Shows.mapped {S : Scanner} {F : Feed} (hs : S.Shows F S.fresh) (store : QuadStore)
    (f : Value → Except String Value) :
    (S.mapped store f).Shows (F.mapped store f) (S.mapped store f).fresh := by
  have hj : Judges (fun h x t => ⟨imageOf store f h, x, t⟩) (fun _ image => image)
      (.plain (imageOf store f)) (fun _ (_ : Unit) => True) fun _ _ _ _ => True :=
    ⟨fun h _ x _ => ⟨x, by cases hi : imageOf store f h <;> simp [hi, Answer.map],
      fun _ _ => trivial, fun _ => trivial⟩⟩
  have next : ∀ {s c s' x' a},
      S.sift (fun h x t => ⟨imageOf store f h, x, t⟩) s () .never = ⟨a, (s', x'), .never⟩ →
      (S.mapped store f).next ⟨{}, ⟨s, c⟩⟩ .never =
        ⟨a, ⟨⟨a.error?, false⟩, ⟨s', a.value?⟩⟩, .never⟩ := by
    intro s c s' x' a hp
    refine Scanner.next_never rfl ?_
    simp only [Scanner.mapped, hp]
    rfl
  refine Scanner.Shows.sift (D := S.mapped store f) (x := ())
    (A := fun s _ d => ∃ c, d = ⟨{}, ⟨s, c⟩⟩) hj ?_ ?_ ?_ hs trivial ⟨none, rfl⟩
  · intro s x d s' x' hd hp
    obtain ⟨c, rfl⟩ := hd
    exact ⟨_, next hp⟩
  · intro s x d e s' x' hd hp
    obtain ⟨c, rfl⟩ := hd
    exact ⟨_, next hp⟩
  · intro s x d image s' x' h m sets rest rest' hd hp _ ho hr
    obtain ⟨c, rfl⟩ := hd
    refine ⟨_, next hp, ?_⟩
    have hw : (S.mapped store f).Offers image none (fun k => (S.mapped store f).Shows (rest' k))
        (sets.map id) ⟨{}, ⟨s', some image⟩⟩ :=
      ho.wrap (D := (S.mapped store f).toCursor) (fun s => (⟨s, some image⟩ : MappedPlace S)) id
        (fun _ _ => rfl) (fun _ _ => rfl) (fun _ => rfl) (fun _ _ => rfl)
        fun k s hs => hr k s () _ hs trivial ⟨some image, rfl⟩
    rwa [List.map_id] at hw

end GraphQuery
