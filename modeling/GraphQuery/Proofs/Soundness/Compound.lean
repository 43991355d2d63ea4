import GraphQuery.Proofs.Soundness.Cursors

/-!
# Sound joins, unions, steps and closures

Cursors built from several others, or from others again and again. Each keeps a state for all its
parts, so what is known of it is put together from what is known of theirs.
-/

namespace GraphQuery

open Tags (EveryIn everyIn_cons)

variable {known : Handle → Prop} {S : Scanner} {I : Index} {R : Roles} {Is : List Index}
  {Ss : List Scanner} {store : QuadStore}

abbrev SetsKnown (known : Handle → Prop) : List (List Tags) → Prop :=
  EveryIn fun _ h => known h

/-! ## Groups -/

namespace GroupState

def Proper (known : Handle → Prop) : (Is : List Index) → GroupState Is → Prop
  | [], _ => True
  | I :: Is, (s, g) => I.Proper known s ∧ Proper known Is g

theorem proper_fresh : ∀ {Is : List Index}, (∀ I ∈ Is, I.Sound known) →
    Proper known Is (fresh Is)
  | [], _ => trivial
  | _ :: _, hIs => ⟨hIs _ List.mem_cons_self, proper_fresh fun I hI =>
      hIs I (List.mem_cons_of_mem _ hI)⟩

theorem proper_containsAt {h : Handle} (hh : known h) : ∀ (Is : List Index) (i : Nat)
    {g : GroupState Is}, Proper known Is g → ∀ t : Token,
      (containsAt Is i h g t).Proper (fun _ => True) (Proper known Is)
  | [], _, _, hg, _ => ⟨trivial, hg⟩
  | I :: _, 0, (s, _), hg, t =>
      (I.confines_proper.contains h s t hh hg.1).inState fun _ hs => ⟨hs, hg.2⟩
  | _ :: Is, i + 1, _, hg, t =>
      (proper_containsAt hh Is i hg.2 t).inState fun _ hrest => ⟨hg.1, hrest⟩

theorem proper_containsAll {h : Handle} (hh : known h) : ∀ (order : List Nat) {g : GroupState Is},
    Proper known Is g → ∀ t : Token,
      (containsAll Is h order g t).Proper (fun _ => True) (Proper known Is)
  | [], _, hg, _ => ⟨trivial, hg⟩
  | i :: order, _, hg, t => (proper_containsAt hh Is i hg t).andThen
      (fun _ _ t _ hg => proper_containsAll hh order hg t) fun _ hg => hg

theorem proper_alternates : ∀ (Is : List Index) {g : GroupState Is}, Proper known Is g →
    ∀ t : Token, (alternates Is g t).Proper (SetsKnown known) (Proper known Is)
  | [], _, hg, _ => ⟨by simp [Answer.Proper, alternates, EveryIn], hg⟩
  | I :: Is, (s, g), hg, t => by
      simp only [alternates]
      refine (I.confines_proper.alternates hg.1 t).andThen (fun sets s t hsets hs => ?_)
        fun _ hs => ⟨hs, hg.2⟩
      refine ((proper_alternates Is hg.2 t).mapValue fun rest hrest => ?_).inState
        fun _ hrest => ⟨hs, hrest⟩
      exact everyIn_cons.2 ⟨hsets, hrest⟩

theorem proper_turnAt : ∀ (Is : List Index) (i : Nat) {g : GroupState Is}, Proper known Is g →
    ∀ t : Token, (turnAt Is i g t).Proper (fun _ => True) (Proper known Is)
  | [], _, _, hg, _ => ⟨trivial, hg⟩
  | I :: _, 0, (s, _), hg, t => (I.confines_proper.nextPath s t hg.1).inState fun _ hs => ⟨hs, hg.2⟩
  | _ :: Is, i + 1, _, hg, t =>
      (proper_turnAt Is i hg.2 t).inState fun _ hrest => ⟨hg.1, hrest⟩

theorem known_tagsAt : ∀ (Is : List Index) (i : Nat) {g : GroupState Is}, Proper known Is g →
    (tagsAt Is i g).Known known
  | [], _, _, _ => Tags.every_empty
  | I :: _, 0, (s, _), hg => I.confines_proper.tags s hg.1
  | _ :: Is, i + 1, _, hg => known_tagsAt Is i hg.2

end GroupState

/-! ## Joins -/

structure Combining.Known {ρ : Type} (known : Handle → Prop) (Q : ρ → Prop) (b : Combining ρ) :
    Prop where
  sources : Q b.sources
  combos : SetsKnown known b.combos.sets
  current : ∀ h ∈ b.current, known h

theorem Cursor.keeps_combining {ρ : Type} (sources : ρ) (close : ρ → ρ) (Q : ρ → Prop) :
    (Cursor.combining sources close).Keeps known (Combining.Known known Q) where
  shown b h hb hs := hb.current h hs
  binds b hb := Combinations.every_tags hb.combos
  turn b t hb := by
    show Outcome.Proper _ _ (b.turn t)
    unfold Combining.turn
    cases hadvance : b.combos.advance with
    | none => exact ⟨trivial, hb⟩
    | some combos =>
        exact ⟨trivial, hb.sources, Combinations.sets_advance hadvance ▸ hb.combos, hb.current⟩

theorem Combining.known_ofSets {ρ : Type} {Q : ρ → Prop} {sources : ρ} {sets : List (List Tags)}
    {h : Handle} (hsources : Q sources) (hsets : SetsKnown known sets) (hh : known h) :
    Combining.Known known Q ⟨sources, .ofSets sets, some h⟩ :=
  ⟨hsources, by rwa [Combinations.sets_ofSets], by simpa using hh⟩

theorem Combining.known_start {ρ : Type} {Q : ρ → Prop} {sources : ρ} (hsources : Q sources) :
    Combining.Known known Q ⟨sources, .empty, none⟩ :=
  ⟨hsources, by simp [Combinations.sets, Combinations.empty, EveryIn], by simp⟩

def JoinedProper (known : Handle → Prop) (s : S.State × GroupState Is) : Prop :=
  S.Proper known s.1 ∧ GroupState.Proper known Is s.2

theorem Scanner.proper_gather (position : Nat) {s : S.State × GroupState Is}
    (hs : JoinedProper known s) (t : Token) :
    (S.gather Is position s t).Proper (SetsKnown known) (JoinedProper known) := by
  unfold gather
  refine (S.confines_proper.alternates hs.1 t).andThen (fun own r t hown hr => ?_)
    fun _ hr => ⟨hr, hs.2⟩
  refine ((GroupState.proper_alternates Is hs.2 t).mapValue fun others hothers => ?_).inState
    fun _ hg => ⟨hr, hg⟩
  intro xs hxs
  rcases List.eq_or_mem_of_mem_insertIdx hxs with rfl | hxs
  · exact hown
  · exact hothers xs hxs

theorem Scanner.Sound.join (hS : S.Sound known) (hIs : ∀ I ∈ Is, I.Sound known) (position : Nat) :
    (S.join position Is).Sound known := by
  refine Scanner.Keeps.sound (P := Combining.Known known (JoinedProper known))
    { toKeeps := Cursor.keeps_combining _ (fun s => (S.close s.1, GroupState.close Is s.2)) _
      clear := fun b hb => ⟨hb.sources, hb.combos, by simp [Scanner.join]⟩
      pull := fun b t hb => ?_ } (Combining.known_start ⟨hS, GroupState.proper_fresh hIs⟩)
  have hagreed : (S.pullAgreed Is b.sources t).Proper known (JoinedProper known) :=
    S.confines_proper.sift
      (fun h g t hh hg => (GroupState.proper_containsAll hh _ hg t).mapValue fun _ _ => hh)
      hb.sources.1 hb.sources.2 t
  show (S.pullJoined Is position b t).Proper _ _
  unfold Scanner.pullJoined
  refine hagreed.andThen (fun h s t hh hs => ?_) fun _ hs => ⟨hs, hb.combos, hb.current⟩
  refine (Scanner.proper_gather position hs t).andThen (fun sets s t hsets hs => ?_)
    fun _ hs => ⟨hs, hb.combos, hb.current⟩
  exact ⟨hh, Combining.known_ofSets hs hsets hh⟩

theorem Index.sound_join (hIs : ∀ I ∈ Is, I.Sound known) (first : Nat) :
    (Index.join Is first).Sound known := by
  refine Index.Keeps.sound (P := Combining.Known known (GroupState.Proper known Is))
    { toKeeps := Cursor.keeps_combining _ _ _
      aim := fun h b _ hb => ⟨hb.sources, hb.combos, by simp [Index.join]⟩
      probe := fun h b t hh hb => ?_ } (Combining.known_start (GroupState.proper_fresh hIs))
  have hfound : (GroupState.containsAll Is h (probeOrder Is.length first) b.sources t).Proper
      (fun _ => True) (GroupState.Proper known Is) :=
    GroupState.proper_containsAll hh _ hb.sources t
  simp only [Index.join]
  refine (hfound.andThen (fun _ _ t _ hg => GroupState.proper_alternates Is hg t)
    fun _ hg => hg).andThen (fun sets g t hsets hg => ?_) fun _ hg => ⟨hg, hb.combos, hb.current⟩
  exact ⟨trivial, Combining.known_ofSets hg hsets hh⟩

theorem Roles.sound_join {Rs : List Roles} (hRs : ∀ R ∈ Rs, R.Sound known) (primary : Nat) :
    (Roles.join Rs primary).Sound known := by
  have hindex {Qs : List Roles} (hQs : ∀ R ∈ Qs, R ∈ Rs) :
      ∀ I ∈ Qs.map Roles.index, I.Sound known := by
    intro I hI
    obtain ⟨R, hR, rfl⟩ := List.mem_map.1 hI
    exact (hRs R (hQs R hR)).index
  unfold Roles.join
  cases hp : Rs[primary]? with
  | none => exact Roles.sound_null
  | some R =>
      exact ⟨(hRs R (List.mem_of_getElem? hp)).scanner.join
        (hindex fun _ h => List.mem_of_mem_eraseIdx h) primary,
        Index.sound_join (hindex fun _ h => h) _⟩

/-! ## Unions -/

namespace BranchState

def Proper (known : Handle → Prop) : (Ss : List Scanner) → BranchState Ss → Prop
  | [], _ => True
  | S :: Ss, .inl s => S.Proper known s ∧ ∀ S' ∈ Ss, S'.Sound known
  | _ :: Ss, .inr b => Proper known Ss b

theorem proper_fresh : ∀ {Ss : List Scanner}, (∀ S ∈ Ss, S.Sound known) →
    Proper known Ss (fresh Ss)
  | [], _ => trivial
  | _ :: _, hSs => List.forall_mem_cons.1 hSs

theorem known_result : ∀ (Ss : List Scanner) {b : BranchState Ss} {h : Handle},
    Proper known Ss b → result Ss b = some h → known h
  | [], _, _, _, hr => by simp [result] at hr
  | S :: _, .inl s, h, hb, hr => S.confines_proper.result s h hb.1 hr
  | _ :: Ss, .inr _, _, hb, hr => known_result Ss hb hr

theorem known_tags : ∀ (Ss : List Scanner) {b : BranchState Ss}, Proper known Ss b →
    (tags Ss b).Known known
  | [], _, _ => Tags.every_empty
  | S :: _, .inl s, hb => S.confines_proper.tags s hb.1
  | _ :: Ss, .inr _, hb => known_tags Ss hb

theorem proper_turn : ∀ (Ss : List Scanner) {b : BranchState Ss}, Proper known Ss b →
    ∀ t : Token, (turn Ss b t).Proper (fun _ => True) (Proper known Ss)
  | [], _, hb, _ => ⟨trivial, hb⟩
  | S :: _, .inl s, hb, t => (S.confines_proper.nextPath s t hb.1).inState fun _ hs => ⟨hs, hb.2⟩
  | _ :: Ss, .inr _, hb, t => (proper_turn Ss hb t).inState fun _ hb => hb

theorem proper_pull : ∀ (Ss : List Scanner) {b : BranchState Ss}, Proper known Ss b →
    ∀ t : Token, (pull Ss b t).Proper known (Proper known Ss)
  | [], _, hb, _ => ⟨trivial, hb⟩
  | S :: Ss, .inl s, hb, t => by
      have hlater := proper_fresh hb.2
      rw [pull, pullThen_eq]
      refine (S.confines_proper.next s t hb.1).either (fun h s t hh hs => ⟨hh, hs, hb.2⟩)
        (fun _ t _ => ?_) fun _ s hs => ⟨hs, hb.2⟩
      have hdone : Proper known (S :: Ss) (.inr (fresh Ss)) := hlater
      refine Outcome.Proper.check (fun _ => hdone) (fun t => ?_) t
      exact (proper_pull Ss hlater t).inState fun _ hb => hb
  | _ :: Ss, .inr _, hb, t => (proper_pull Ss hb t).inState fun _ hb => hb

end BranchState

theorem Scanner.sound_union (hSs : ∀ S ∈ Ss, S.Sound known) : (Scanner.union Ss).Sound known :=
  Scanner.Keeps.sound (P := BranchState.Proper known Ss)
    { shown := fun _ _ hb hr => BranchState.known_result Ss hb hr
      binds := fun _ hb => BranchState.known_tags Ss hb
      turn := fun _ t hb => BranchState.proper_turn Ss hb t
      clear := fun _ hb => hb
      pull := fun _ t hb => BranchState.proper_pull Ss hb t } (BranchState.proper_fresh hSs)

namespace Search

structure Known (known : Handle → Prop) (b : Search Is) : Prop where
  branches : GroupState.Proper known Is b.branches
  candidate : ∀ h ∈ b.candidate, known h

theorem proper_seek {h : Handle} (hh : known h) : ∀ (count i : Nat) {g : GroupState Is},
    GroupState.Proper known Is g → ∀ t : Token,
      (seek h i count g t).Proper (fun _ => True) (GroupState.Proper known Is)
  | 0, _, _, hg, _ => ⟨trivial, hg⟩
  | count + 1, i, g, hg, t => by
      unfold seek
      refine Outcome.Proper.check (fun _ => hg) (fun t => ?_) t
      have ho := GroupState.proper_containsAt hh Is i hg t
      dsimp only
      split
      · exact ⟨trivial, ho.state⟩
      · exact ⟨ho.failed ‹_›, ho.state⟩
      · exact proper_seek hh count (i + 1) ho.state _

theorem proper_moveTo {b : Search Is} (hb : b.Known known) {h : Handle} (hh : known h) (i : Nat)
    {g : GroupState Is} (hg : GroupState.Proper known Is g) (t : Token) :
    (b.moveTo h i g t).Proper (fun _ => True) (Search.Known known) := by
  have ho := proper_seek hh (Is.length - i) i hg t
  exact Outcome.Proper.mapValue (V := fun _ => True) ⟨ho.answer, ho.state, hb.candidate⟩
    fun _ h => h

theorem proper_turn {b : Search Is} (hb : b.Known known) (t : Token) :
    (b.turn t).Proper (fun _ => True) (Search.Known known) := by
  unfold Search.turn
  split
  · rename_i i h _ hcandidate
    have ho := GroupState.proper_turnAt Is i hb.branches t
    dsimp only
    split
    · exact proper_moveTo hb (hb.candidate h hcandidate) _ ho.state _
    · exact ⟨ho.answer, ho.state, hb.candidate⟩
  · exact ⟨trivial, hb⟩

end Search

theorem Index.sound_union (hIs : ∀ I ∈ Is, I.Sound known) : (Index.union Is).Sound known := by
  refine Index.Keeps.sound (P := Search.Known known)
    { shown := fun b h hb hs => ?_
      binds := fun b hb => ?_
      turn := fun b t hb => Search.proper_turn hb t
      aim := fun h b hh hb => ⟨hb.branches, by simpa [Index.union] using hh⟩
      probe := fun h b t hh hb => Search.proper_moveTo hb hh 0 hb.branches t }
    ⟨GroupState.proper_fresh hIs, by simp [Index.union]⟩
  · obtain ⟨_, _, hcandidate⟩ := Option.bind_eq_some_iff.1 hs
    exact hb.candidate h hcandidate
  · simp only [Index.union]
    split
    · exact GroupState.known_tagsAt Is _ hb.branches
    · exact Tags.every_empty

theorem Roles.sound_union {Rs : List Roles} (hRs : ∀ R ∈ Rs, R.Sound known) :
    (Roles.union Rs).Sound known where
  scanner := Scanner.sound_union fun S hS => by
    obtain ⟨R, hR, rfl⟩ := List.mem_map.1 hS
    exact (hRs R hR).scanner
  index := Index.sound_union fun I hI => by
    obtain ⟨R, hR, rfl⟩ := List.mem_map.1 hI
    exact (hRs R hR).index

/-! ## Steps -/

namespace OptionalState

def Proper (known : Handle → Prop) : (I : Option Index) → OptionalState I → Prop
  | none, _ => True
  | some I, s => I.Proper known s

theorem proper_fresh : ∀ {I : Option Index}, (∀ J ∈ I, J.Sound known) →
    Proper known I (fresh I)
  | none, _ => trivial
  | some _, hI => hI _ rfl

theorem proper_bindings {h : Handle} (hh : known h) : ∀ {I : Option Index} {s : OptionalState I},
    Proper known I s → ∀ t : Token,
      (bindings I h s t).Proper (SetsKnown known) (Proper known I)
  | none, _, hs, _ => ⟨by simp [Answer.Proper, bindings, EveryIn], hs⟩
  | some I, s, hs, t => by
      unfold bindings
      refine (I.confines_proper.contains h s t hh hs).andThen (fun _ s t _ hs => ?_) fun _ hs => hs
      refine (I.confines_proper.alternates hs t).mapValue fun sets hsets => ?_
      exact everyIn_cons.2 ⟨hsets, by simp [EveryIn]⟩

end OptionalState

def QuadTest.Proper (known : Handle → Prop) {Q : QuadTest} (s : Q.State) : Prop :=
  OptionalState.Proper known Q.via s.1 ∧ OptionalState.Proper known Q.labels s.2

theorem QuadTest.proper_bindings {Q : QuadTest} {quad : Quad}
    (hquad : ∀ d h, quad.at d = some h → known h) {s : Q.State} (hs : QuadTest.Proper known s)
    (t : Token) : (Q.bindings quad s t).Proper (SetsKnown known) (QuadTest.Proper known) := by
  have hpredicate : known quad.predicate := hquad .predicate _ rfl
  have hlabels (l : OptionalState Q.labels) (hl : OptionalState.Proper known Q.labels l)
      (t : Token) : (Q.labelBindings quad.label l t).Proper (SetsKnown known)
        (OptionalState.Proper known Q.labels) := by
    unfold QuadTest.labelBindings
    split
    · exact OptionalState.proper_bindings (hquad .label _ ‹_›) hl t
    · exact ⟨trivial, hl⟩
    · exact ⟨by simp [Answer.Proper, EveryIn], hl⟩
  have hnamed : SetsKnown known (Q.named quad.predicate) := by
    unfold QuadTest.named
    split
    · simp [EveryIn]
    · have htags : (Tags.ofNames Q.names quad.predicate).Known known :=
        Tags.every_empty.insertAll fun _ _ => hpredicate
      simpa [EveryIn] using htags
  unfold QuadTest.bindings
  refine (OptionalState.proper_bindings hpredicate hs.1 t).andThen (fun via v t hvia hv => ?_)
    fun _ hv => ⟨hv, hs.2⟩
  refine ((hlabels s.2 hs.2 t).mapValue fun labels hlabels => ?_).inState fun _ hl => ⟨hv, hl⟩
  exact (hvia.append hnamed).append hlabels

section Steps

variable {W : Walk}

theorem Walk.proper_follow (hk : W.store.Grounds known) (id : QuadId) {s : W.test.State}
    (hs : QuadTest.Proper known s) (t : Token) :
    (W.follow id s t).Proper (fun r => known r.1 ∧ SetsKnown known r.2)
      (QuadTest.Proper known) := by
  unfold Walk.follow
  cases hquad : W.store.quad id with
  | none => exact ⟨trivial, hs⟩
  | some quad =>
      dsimp only
      cases hat : quad.at W.toEnd with
      | none => exact ⟨trivial, hs⟩
      | some target =>
          have hends (d : Direction) (h : Handle) (hd : quad.at d = some h) : known h :=
            hk.ends id quad d h hquad hd
          exact (QuadTest.proper_bindings hends hs t).mapValue fun _ hsets =>
            ⟨hends _ target hat, hsets⟩

structure Walking.Known (known : Handle → Prop) (b : Walking S W) : Prop where
  source : S.Proper known b.source
  sets : ∀ t ∈ b.sets, t.Known known
  test : QuadTest.Proper known b.test

theorem Walking.Known.advance (hk : W.store.Grounds known) {b : Walking S W} (hb : b.Known known)
    (t : Token) :
    (b.advance t).Proper (fun r => known r.1 ∧ SetsKnown known r.2) (Walking.Known known) := by
  fun_induction Walking.advance b t with
  | case1 b t id quads hq o b' target sets ho =>
      have hf := Walk.proper_follow hk id hb.test t
      obtain ⟨htarget, hsets⟩ := hf.found ho
      exact ⟨⟨htarget, everyIn_cons.2 ⟨hb.sets, hsets⟩⟩, hb.source, hb.sets, hf.state⟩
  | case2 b t id quads hq o b' e ho =>
      have hf := Walk.proper_follow hk id hb.test t
      exact ⟨hf.failed ho, hb.source, hb.sets, hf.state⟩
  | case3 b t id quads hq o b' ho e t' hcheck =>
      have hf := Walk.proper_follow hk id hb.test t
      exact ⟨Token.not_misuse_of_check hcheck, hb.source, hb.sets, hf.state⟩
  | case4 b t id quads hq o b' ho t' hcheck ih =>
      have hf := Walk.proper_follow hk id hb.test t
      exact ih ⟨hb.source, hb.sets, hf.state⟩
  | case5 b t hq o ho =>
      exact ⟨trivial, (S.confines_proper.next b.source t hb.source).state, hb.sets, hb.test⟩
  | case6 b t hq o e ho =>
      have hn := S.confines_proper.next b.source t hb.source
      exact ⟨hn.failed ho, hn.state, hb.sets, hb.test⟩
  | case7 b t hq o h ho a e he =>
      have ha : a.complete.Proper _ (S.Proper known) := S.confines_proper.alternates
        (S.confines_proper.next b.source t hb.source).state o.token
      have hcomplete : a.complete.answer = .failed e := by simp [Run.complete, he]
      exact ⟨ha.failed hcomplete, ha.state, hb.sets, hb.test⟩
  | case8 b t hq o h ho a he b' e t' hcheck =>
      have ha : a.complete.Proper _ (S.Proper known) := S.confines_proper.alternates
        (S.confines_proper.next b.source t hb.source).state o.token
      have hcomplete : a.complete.answer = .found a.items := by simp [Run.complete, he]
      exact ⟨Token.not_misuse_of_check hcheck, ha.state, ha.found hcomplete, hb.test⟩
  | case9 b t hq o h ho a he b' t' hcheck ih =>
      have ha : a.complete.Proper _ (S.Proper known) := S.confines_proper.alternates
        (S.confines_proper.next b.source t hb.source).state o.token
      have hcomplete : a.complete.answer = .found a.items := by simp [Run.complete, he]
      exact ih ⟨ha.state, ha.found hcomplete, hb.test⟩

structure QuadTest.Sound (known : Handle → Prop) (Q : QuadTest) : Prop where
  via : ∀ I ∈ Q.via, I.Sound known
  labels : ∀ I ∈ Q.labels, I.Sound known

theorem QuadTest.Sound.fresh {Q : QuadTest} (hQ : Q.Sound known) :
    QuadTest.Proper known Q.fresh :=
  ⟨OptionalState.proper_fresh hQ.via, OptionalState.proper_fresh hQ.labels⟩

theorem Scanner.Sound.step (hS : S.Sound known) (hk : W.store.Grounds known)
    (hW : W.test.Sound known) : (S.step W).Sound known := by
  refine Scanner.Keeps.sound (P := Combining.Known known (Walking.Known known))
    { toKeeps := Cursor.keeps_combining _ (fun b : Walking S W =>
        { b with source := S.close b.source, test := W.test.close b.test }) _
      clear := fun b hb => ⟨hb.sources, hb.combos, by simp [Scanner.step]⟩
      pull := fun b t hb => ?_ } (Combining.known_start ⟨hS, by simp, hW.fresh⟩)
  show (Scanner.pullWalked b t).Proper _ _
  unfold Scanner.pullWalked
  exact (hb.sources.advance hk t).andThen
    (fun r s t hr hs => ⟨hr.1, Combining.known_ofSets hs hr.2 hr.1⟩)
    fun _ hs => ⟨hs, hb.combos, hb.current⟩

def SourcesProper (known : Handle → Prop) (s : I.State × W.test.State) : Prop :=
  I.Proper known s.1 ∧ QuadTest.Proper known s.2

theorem Walk.proper_comeFrom {quad : Quad} (hquad : ∀ d h, quad.at d = some h → known h)
    {source : Handle} (hsource : known source) {s : I.State × W.test.State}
    (hs : SourcesProper known s) (t : Token) :
    (W.comeFrom I quad source s t).Proper (fun sets => ∀ t ∈ sets, t.Known known)
      (SourcesProper known) := by
  unfold Walk.comeFrom
  refine (QuadTest.proper_bindings hquad hs.2 t).andThen (fun sets q t hsets hq => ?_)
    fun _ hq => ⟨hs.1, hq⟩
  refine Outcome.Proper.inState (P := I.Proper known) ?_ fun _ hr => ⟨hr, hq⟩
  refine (I.confines_proper.contains source s.1 t hsource hs.1).andThen (fun _ r t _ hr => ?_)
    fun _ hr => hr
  refine (I.confines_proper.alternates hr t).mapValue fun own hown => ?_
  exact Combinations.every_all (everyIn_cons.2 ⟨hown, hsets⟩)

theorem Walk.proper_retrace (hk : W.store.Grounds known) : ∀ (quads : List QuadId)
    {s : I.State × W.test.State}, SourcesProper known s → ∀ t : Token,
      (W.retrace I quads s t).Proper (fun sets => ∀ t ∈ sets, t.Known known) (SourcesProper known)
  | [], s, hs, t => ⟨by simp [Answer.Proper, Walk.retrace], hs⟩
  | id :: quads, s, hs, t => by
      unfold Walk.retrace
      refine Outcome.Proper.check (fun _ => hs) (fun t => ?_) t
      cases hfrom : (W.store.quad id).bind fun quad => (quad.at W.fromEnd).map (quad, ·) with
      | none => exact proper_retrace hk quads hs t
      | some p =>
          obtain ⟨quad, hquad, hat⟩ := Option.bind_eq_some_iff.1 hfrom
          obtain ⟨source, hsource, rfl⟩ := Option.map_eq_some_iff.1 hat
          have hends (d : Direction) (h : Handle) (hd : quad.at d = some h) : known h :=
            hk.ends id quad d h hquad hd
          have ho := W.proper_comeFrom hends (hends _ source hsource) hs t
          dsimp only
          split
          · exact ⟨ho.failed ‹_›, ho.state⟩
          · exact proper_retrace hk quads ho.state _
          · refine (proper_retrace hk quads ho.state _).mapValue fun rest hrest => ?_
            exact List.forall_mem_append.2 ⟨ho.found ‹_›, hrest⟩

theorem Index.Sound.step (hI : I.Sound known) (hk : W.store.Grounds known)
    (hW : W.test.Sound known) : (I.step W).Sound known := by
  refine Index.Keeps.sound (P := Listing.Known known (SourcesProper known))
    { toKeeps := Cursor.keeps_listing _ _ _ _
      aim := fun h b _ hb => ⟨hb.source, by simp [Index.step], by simp [Index.step]⟩
      probe := fun h b t hh hb => ?_ } (Listing.known_start ⟨hI, hW.fresh⟩)
  have ho := W.proper_retrace hk (W.store.quadsWith W.toEnd h) hb.source t
  simp only [Index.step]
  split
  · exact ⟨trivial, ho.state, hb.current, hb.sets⟩
  · exact ⟨trivial, ho.state, hb.current, hb.sets⟩
  · exact ⟨trivial, ho.state, by simpa using hh, ho.found ‹_›⟩
  · exact ⟨ho.failed ‹_›, ho.state, hb.current, hb.sets⟩

theorem Roles.Sound.step (hR : R.Sound known) (hk : W.store.Grounds known)
    (hW : W.test.Sound known) : (R.step W).Sound known :=
  ⟨hR.scanner.step hk hW, hR.index.step hk hW⟩

end Steps

/-! ## Closures -/

def ReachedKnown (known : Handle → Prop) (r : Reached) : Prop :=
  ∀ p ∈ r, known p.1 ∧ p.2.Known known

theorem ReachedKnown.ofRows {rows : List Row} (hrows : RowsKnown known rows) :
    ReachedKnown known (.ofRows rows) := by
  rintro ⟨x, t⟩ hp
  obtain ⟨r, hr, rfl, ht⟩ := Reached.mem_ofRows.1 hp
  exact ⟨(hrows r hr).1, (hrows r hr).2 t ht⟩

/-- A level shows what its rows are about, with binding sets of the frontier. -/
theorem ReachedKnown.shown {bindings : ClosureBindings} {seen frontier : Reached} {rows : List Row}
    (hfrontier : ReachedKnown known frontier) (hrows : RowsKnown known rows) :
    ReachedKnown known (Level.ofRows bindings seen frontier rows).shown := by
  intro p hp
  obtain ⟨⟨r, hr, hhandle⟩, q, hq, htags⟩ := Level.origin_of_mem_shown hp
  exact ⟨hhandle ▸ (hrows r hr).1, htags ▸ (hfrontier q hq).2⟩

structure ClosureState.Known (known : Handle → Prop) (b : ClosureState) : Prop where
  frontier : ∀ r ∈ b.frontier, ReachedKnown known r
  queue : ReachedKnown known b.queue
  current : ∀ p ∈ b.current, known p.1 ∧ p.2.Known known

namespace Closure

variable {C : Closure} {b : ClosureState} {frontier : Reached}

theorem proper_expand (hC : ∀ R : Roles, R.Sound known → (C.apply R).Sound known)
    (hb : b.Known known) (hfrontier : ReachedKnown known frontier) (t : Token) :
    (C.expand b frontier t).Proper (fun _ => True) (ClosureState.Known known) := by
  have hinputs : (Roles.ofHandles frontier.inputs).Sound known :=
    Roles.sound_ofHandles (Reached.forall_inputs fun p hp => (hfrontier p hp).1)
  have hlevel := hC _ (hinputs.naming [baseName])
  unfold expand
  refine (hlevel.scanner.record (fun _ _ => rfl) t).andThen (fun rows _ t hrows _ => ?_)
    fun _ _ => hb
  have hshown : ReachedKnown known (Level.ofRows C.bindings b.seen frontier rows).shown :=
    hfrontier.shown hrows
  refine ⟨trivial, fun r hr => ?_, hshown, hb.current⟩
  obtain rfl := Option.some.inj hr
  exact fun p hp => hshown p ((Level.made_ofRows ..).mem_fresh.1 hp).1

theorem known_show? {h : Handle} {b' : ClosureState} (hb : b.Known known)
    (hs : show? b = some (h, b')) : known h ∧ b'.Known known := by
  unfold show? at hs
  split at hs
  · simp at hs
  · rename_i p queue hqueue
    simp only [Option.some.injEq, Prod.mk.injEq] at hs
    obtain ⟨rfl, rfl⟩ := hs
    obtain ⟨hp, hrest⟩ := List.forall_mem_cons.1 (hqueue ▸ hb.queue)
    exact ⟨hp.1, hb.frontier, hrest, by simpa using hp⟩

theorem proper_finish (hb : b.Known known) (t : Token) :
    (finish b t).Proper known (ClosureState.Known known) := by
  have hdone : ClosureState.Known known { b with finished := true } :=
    ⟨hb.frontier, hb.queue, hb.current⟩
  unfold finish
  split
  · exact ⟨Token.not_misuse_of_check ‹_›, hdone⟩
  · exact ⟨trivial, hdone⟩

theorem proper_descend (hC : ∀ R : Roles, R.Sound known → (C.apply R).Sound known)
    (hb : b.Known known) (hfrontier : ReachedKnown known frontier) (t : Token) :
    (C.descend b frontier t).Proper known (ClosureState.Known known) := by
  unfold descend
  split
  · refine (proper_expand hC hb hfrontier t).andThen (fun _ b t _ hb => ?_) fun _ hb => hb
    refine Outcome.Proper.check (fun _ => hb) (fun t => ?_) t
    cases hs : show? b with
    | some p => exact ⟨(known_show? hb hs).1, (known_show? hb hs).2⟩
    | none => exact proper_finish hb t
  · exact proper_finish hb t

theorem proper_pull (hC : ∀ R : Roles, R.Sound known → (C.apply R).Sound known)
    (hS : S.Sound known) (hb : b.Known known) (t : Token) :
    (C.pull S b t).Proper known (ClosureState.Known known) := by
  unfold pull
  cases hs : show? b with
  | some p => exact ⟨(known_show? hb hs).1, (known_show? hb hs).2⟩
  | none =>
      dsimp only
      split
      · exact ⟨trivial, hb⟩
      · cases hfrontier : b.frontier with
        | some frontier => exact proper_descend hC hb (hb.frontier frontier hfrontier) t
        | none =>
            refine (hS.record (fun _ _ => rfl) t).andThen (fun rows _ t hrows _ => ?_) fun _ _ => hb
            have hseeds := ReachedKnown.ofRows hrows
            have hloaded : ClosureState.Known known { b with frontier := some (.ofRows rows) } :=
              ⟨fun _ hr => Option.some.inj hr ▸ hseeds, hb.queue, hb.current⟩
            exact proper_descend hC hloaded hseeds t

theorem known_tags (hk : C.store.Grounds known) (hb : b.Known known) : (C.tags b).Known known := by
  unfold Closure.tags
  split
  · exact Tags.every_empty
  · rename_i h tags hcurrent
    have htags := (hb.current _ hcurrent).2
    split
    · exact htags
    · split
      · exact htags
      · rename_i depth hdepth
        exact htags.insertAll fun _ _ => hk.intern _ depth hdepth

end Closure

theorem Scanner.Sound.closure (hS : S.Sound known) {C : Closure} (hk : C.store.Grounds known)
    (hC : ∀ R : Roles, R.Sound known → (C.apply R).Sound known) : (S.closure C).Sound known := by
  refine Scanner.Keeps.sound (P := ClosureState.Known known)
    { shown := fun b h hb hs => ?_
      binds := fun b hb => Closure.known_tags hk hb
      turn := fun b t hb => ⟨trivial, hb⟩
      clear := fun b hb => ⟨hb.frontier, hb.queue, by simp [Scanner.closure]⟩
      pull := fun b t hb => Closure.proper_pull hC hS hb t }
    ⟨by simp [Scanner.closure], by simp [Scanner.closure, ReachedKnown], by simp [Scanner.closure]⟩
  obtain ⟨p, hp, rfl⟩ := Option.map_eq_some_iff.1 hs
  exact (hb.current p hp).1

end GraphQuery
