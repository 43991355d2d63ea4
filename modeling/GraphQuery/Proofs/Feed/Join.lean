import GraphQuery.Cursor.Join
import GraphQuery.Proofs.Feed.Group
import GraphQuery.Proofs.Feed.Leaf
import GraphQuery.Proofs.Feed.Sieve
import GraphQuery.Proofs.Tags

/-!
# What joins show

The driver's feed is sifted by the replies of the other operands. A row that all hold shows the
combinations of their binding sets, and turning through these leaves the driver where its own last
binding set was.
-/

namespace GraphQuery

/-- The combinations from the present one on are shown one after the other. -/
theorem Cursor.offers_combining {ρ : Type} {start sources : ρ} {close : ρ → ρ} {h : Handle}
    {after : Nat → (Cursor.combining start close).State → Prop} (combos : Combinations)
    (ha : ∀ k combos, after k ⟨{}, ⟨sources, combos, some h⟩⟩) :
    (Cursor.combining start close).Offers h none after combos.remainingTags
      ⟨{}, ⟨sources, combos, some h⟩⟩ := by
  induction combos using Combinations.remainingTags.induct generalizing after with
  | case1 c hc =>
      rw [Combinations.remainingTags_of_last hc]
      refine ⟨rfl, rfl, ha 0 c, _, Cursor.nextPath_never rfl ?_, ha 0 c⟩
      show Combining.turn _ _ = _
      simp only [Combining.turn, hc]
      rfl
  | case2 c d hc ih =>
      have hturn : Combining.turn ⟨sources, c, some h⟩ .never =
          ⟨.found (), ⟨sources, d, some h⟩, .never⟩ := by
        simp only [Combining.turn, hc]
      have hrest := ih fun k combos => ha (k + 1) combos
      rw [Combinations.remainingTags_of_advance hc]
      cases hs : d.remainingTags with
      | nil =>
          rw [hs] at hrest
          exact hrest.elim
      | cons t sets =>
          rw [hs] at hrest
          exact ⟨rfl, rfl, ha 0 c, _, Cursor.nextPath_never rfl hturn, hrest⟩

theorem Combining.turn_eq {ρ : Type} (b : Combining ρ) (t : Token) :
    ∃ a combos, b.turn t = ⟨a, ⟨b.sources, combos, b.current⟩, t⟩ := by
  unfold turn
  split
  · exact ⟨_, _, rfl⟩
  · exact ⟨_, b.combos, rfl⟩

/-! ## The driver scans -/

def joinedRow (replies : List (Handle → Reply)) (position : Nat) (_ : Unit) (h : Handle)
    (sets : List Tags) (rest : Nat → Feed) : Feed :=
  match gathered h replies with
  | .found others =>
      .row h (Combinations.all (others.insertIdx position sets)) fun _ => rest (sets.length - 1)
  | .nothing => .done
  | .failed e => .failed e

def Feed.join (replies : List (Handle → Reply)) (position : Nat) (F : Feed) : Feed :=
  F.sift (.plain fun h => consult replies h (List.range replies.length))
    (joinedRow replies position) ()

theorem gathered_ne_nothing (h : Handle) (replies : List (Handle → Reply)) :
    gathered h replies ≠ .nothing := by
  induction replies with
  | nil => simp [gathered]
  | cons reply replies ih =>
      rw [gathered]
      split
      · simp
      · cases hg : gathered h replies with
        | nothing => exact (ih hg).elim
        | found sets => simp [Answer.map]
        | failed e => simp [Answer.map]

theorem Scanner.Shows.join {S : Scanner} {F : Feed} {Is : List Index}
    {replies : List (Handle → Reply)} (position : Nat) (hs : S.Shows F S.fresh)
    (hr : List.Forall₂ (fun I reply => I.Ready reply I.fresh) Is replies) :
    (S.join position Is).Shows (F.join replies position) (S.join position Is).fresh := by
  have hl : Is.length = replies.length := hr.length_eq
  have hj : Judges
      (fun h g t => (GroupState.containsAll Is h (List.range Is.length) g t).mapValue fun _ => h)
      (fun h _ => h) (.plain fun h => consult replies h (List.range replies.length))
      (fun _ => GroupState.Ready Is replies)
      (fun h _ _ => GroupState.Stands Is replies h fun i => i < Is.length) := by
    refine ⟨fun h _ g hg => ?_⟩
    have horder : ∀ i ∈ List.range Is.length, i < Is.length := fun i hi => List.mem_range.1 hi
    obtain ⟨g', hc, hf, hn⟩ := (hg.stands h).containsAll horder
    rw [hl] at hc hf hn
    refine ⟨g', by rw [hl, hc]; rfl, fun a ha => ?_, hn⟩
    exact (hf ha).mono fun i hi => .inl (List.mem_range.2 (hl ▸ hi))
  refine Scanner.Shows.sift (D := S.join position Is)
    (A := fun s g d => ∃ combos c, d = ⟨{}, ⟨(s, g), combos, c⟩⟩) hj ?_ ?_ ?_ hs
    (GroupState.ready_fresh hr) ⟨.empty, none, rfl⟩
  · intro s g d s' g' hd hp
    obtain ⟨combos, c, rfl⟩ := hd
    have pull : (S.join position Is).pull
        ((S.join position Is).clear ⟨(s, g), combos, c⟩) .never =
          ⟨.nothing, (⟨(s', g'), combos, none⟩ : Combining _), .never⟩ := by
      simp only [Scanner.join, Scanner.pullJoined, Scanner.pullAgreed, hp]
      rfl
    exact ⟨_, Scanner.next_never rfl pull⟩
  · intro s g d e s' g' hd hp
    obtain ⟨combos, c, rfl⟩ := hd
    have pull : (S.join position Is).pull
        ((S.join position Is).clear ⟨(s, g), combos, c⟩) .never =
          ⟨.failed e, (⟨(s', g'), combos, none⟩ : Combining _), .never⟩ := by
      simp only [Scanner.join, Scanner.pullJoined, Scanner.pullAgreed, hp]
      rfl
    exact ⟨_, Scanner.next_never rfl pull⟩
  · intro s g d a s' g' h m sets rest rest' hd hp hg ho hrest
    obtain ⟨combos, c, rfl⟩ := hd
    obtain ⟨s'', hown, hs''⟩ := ho.alternates
    obtain ⟨g'', hothers, hg''⟩ := hg.alternates hl
    have hgather : S.gather Is position (s', g') .never =
        ⟨(gathered h replies).map fun others => others.insertIdx position sets, (s'', g''),
          .never⟩ := by
      simp only [Scanner.gather, hown, Run.complete, Outcome.andThen, hothers]
      rfl
    have pull : (S.join position Is).pull
        ((S.join position Is).clear ⟨(s, g), combos, c⟩) .never =
          (S.gather Is position (s', g') .never).andThen
            (fun sets s t => ⟨.found h, ⟨s, .ofSets sets, some h⟩, t⟩)
            fun s => ⟨s, combos, none⟩ := by
      simp only [Scanner.join, Scanner.pullJoined, Scanner.pullAgreed, hp]
      rfl
    rw [hgather] at pull
    unfold joinedRow
    cases hc : gathered h replies with
    | nothing => exact (gathered_ne_nothing h replies hc).elim
    | failed e =>
        rw [hc] at pull
        exact ⟨_, Scanner.next_never rfl pull⟩
    | found others =>
        rw [hc] at pull
        refine ⟨_, Scanner.next_never rfl pull, ?_⟩
        exact Cursor.offers_combining (.ofSets (others.insertIdx position sets))
          fun _ combos => hrest _ s'' g'' _ (hs'' rfl) (hg'' (by rw [hc]; rfl))
            ⟨combos, some h, rfl⟩

/-! ## All operands are probed -/

def Reply.join (replies : List (Handle → Reply)) (first : Nat) (h : Handle) : Reply :=
  match consult replies h (probeOrder replies.length first) with
  | .nothing => .absent
  | .failed e => .failure e
  | .found _ =>
      match gathered h replies with
      | .found sets => .ofSets (Combinations.all sets)
      | .nothing => .absent
      | .failed e => .failure e

theorem mem_probeOrder {n first i : Nat} (hf : first < n) :
    i ∈ probeOrder n first ↔ i < n := by
  simp only [probeOrder, List.mem_iff_getElem?, List.getElem?_set, List.length_set,
    List.length_range]
  constructor
  · intro ⟨k, hk⟩
    grind
  · intro hi
    by_cases h0 : i = 0
    · exact ⟨first, by grind⟩
    · by_cases h1 : i = first
      · exact ⟨0, by grind⟩
      · exact ⟨i, by grind⟩

theorem Index.ready_join {Is : List Index} {replies : List (Handle → Reply)} {first : Nat}
    (hf : first < Is.length)
    (hr : List.Forall₂ (fun I reply => I.Ready reply I.fresh) Is replies) :
    (Index.join Is first).Ready (Reply.join replies first) (Index.join Is first).fresh := by
  have hl : Is.length = replies.length := hr.length_eq
  refine Index.ready_of_closed (I := Index.join Is first)
    (fun d => ∃ g combos c, d = ⟨{}, ⟨g, combos, c⟩⟩ ∧ GroupState.Ready Is replies g) ?_ ?_
    ⟨_, .empty, none, rfl, GroupState.ready_fresh hr⟩
  · intro d hd
    obtain ⟨g, combos, c, rfl, hg⟩ := hd
    obtain ⟨a, combos', ht⟩ := Combining.turn_eq ⟨g, combos, c⟩ .never
    exact Index.endures_of_turn (I := Index.join Is first) ⟨g, combos, c, rfl, hg⟩ ht
      fun _ => ⟨g, combos', c, rfl, hg⟩
  intro d hd h
  obtain ⟨g, combos, c, rfl, hg⟩ := hd
  have horder : ∀ i ∈ probeOrder Is.length first, i < Is.length :=
    fun i hi => (mem_probeOrder hf).1 hi
  obtain ⟨g₁, hc, hfound, hnothing⟩ := (hg.stands h).containsAll horder
  rw [hl] at hfound hnothing
  unfold Reply.join
  cases ha : consult replies h (probeOrder replies.length first) with
  | nothing =>
      have probe : (Index.join Is first).probe h ((Index.join Is first).aim h ⟨g, combos, c⟩)
          .never = ⟨.nothing, (⟨g₁, combos, none⟩ : Combining _), .never⟩ := by
        simp only [Index.join, hc]
        rw [hl, ha]
        rfl
      exact Index.answers_of_probe probe (fun _ => ⟨g₁, combos, none, rfl, hnothing ha⟩) (by simp)
  | failed e =>
      have probe : (Index.join Is first).probe h ((Index.join Is first).aim h ⟨g, combos, c⟩)
          .never = ⟨.failed e, (⟨g₁, combos, none⟩ : Combining _), .never⟩ := by
        simp only [Index.join, hc]
        rw [hl, ha]
        rfl
      exact Index.answers_of_probe probe (by simp) (by simp)
  | found u =>
      obtain ⟨g₂, halt, hready⟩ := ((hfound ha).mono fun i hi => .inl
        ((mem_probeOrder (hl ▸ hf)).2 (hl ▸ hi))).alternates hl
      have probe : (Index.join Is first).probe h ((Index.join Is first).aim h ⟨g, combos, c⟩)
          .never = Outcome.andThen (⟨gathered h replies, g₂, .never⟩ : Outcome _ _)
            (fun sets g t => ⟨.found (), ⟨g, .ofSets sets, some h⟩, t⟩)
            fun g => ⟨g, combos, none⟩ := by
        simp only [Index.join, hc]
        rw [hl, ha, ← halt]
        rfl
      cases hgat : gathered h replies with
      | nothing => exact (gathered_ne_nothing h replies hgat).elim
      | failed e =>
          rw [hgat] at probe
          exact Index.answers_of_probe probe (by simp) (by simp)
      | found sets =>
          rw [hgat] at probe
          have hne : (Reply.ofSets (Combinations.all sets)).answer = .found () := by
            cases hall : Combinations.all sets with
            | nil => exact (Combinations.all_ne_nil sets hall).elim
            | cons t ts => rfl
          refine Index.answers_of_probe (r := .ofSets (Combinations.all sets))
            (by rw [hne]; exact probe) (by simp [hne]) fun _ => ?_
          exact Cursor.offers_combining (.ofSets sets) fun _ combos =>
            ⟨g₂, combos, some h, rfl, hready (by rw [hgat]; rfl)⟩

/-! ## Both roles -/

theorem forall₂_eraseIdx {α β : Type*} {R : α → β → Prop} {xs : List α} {ys : List β}
    (h : List.Forall₂ R xs ys) : ∀ i, List.Forall₂ R (xs.eraseIdx i) (ys.eraseIdx i) := by
  induction h with
  | nil => exact fun _ => .nil
  | cons hxy _ ih =>
      intro i
      cases i with
      | zero => assumption
      | succ i => exact .cons hxy (ih i)

def Meaning.join (Ms : List Meaning) (primary : Nat) : Meaning :=
  match Ms[primary]? with
  | none => .leaf [] fun _ => false
  | some M =>
      ⟨M.feed.join ((Ms.eraseIdx primary).map Meaning.reply) primary,
        Reply.join (Ms.map Meaning.reply) primary⟩

theorem Roles.Realizes.join {Rs : List Roles} {Ms : List Meaning}
    (hR : List.Forall₂ Roles.Realizes Rs Ms) (primary : Nat) :
    (Roles.join Rs primary).Realizes (.join Ms primary) := by
  have ready : ∀ {Rs : List Roles} {Ms : List Meaning}, List.Forall₂ Roles.Realizes Rs Ms →
      List.Forall₂ (fun I reply => I.Ready reply I.fresh) (Rs.map Roles.index)
        (Ms.map Meaning.reply) := by
    intro Rs Ms hR
    rw [List.forall₂_map_left_iff, List.forall₂_map_right_iff]
    exact hR.imp fun _ _ h => h.ready
  unfold Roles.join Meaning.join
  rcases Nat.lt_or_ge primary Rs.length with hp | hp
  · have hp' : primary < Ms.length := hR.length_eq ▸ hp
    rw [List.getElem?_eq_getElem hp, List.getElem?_eq_getElem hp']
    have hd := hR.get hp hp'
    exact ⟨hd.shows.join primary (ready (forall₂_eraseIdx hR primary)),
      Index.ready_join (by simpa using hp) (ready hR)⟩
  · rw [List.getElem?_eq_none hp, List.getElem?_eq_none (hR.length_eq ▸ hp)]
    exact Roles.realizes_leaf [] fun _ => false

end GraphQuery
