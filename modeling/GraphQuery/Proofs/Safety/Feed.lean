import GraphQuery.Proofs.Closure.Level
import GraphQuery.Proofs.Meaning

/-!
# Safe feeds

A feed holds to what is accepted if it shows accepted handles only, each with a binding set, and
fails with expected errors only; it is safe if no error is expected. Every operation on feeds keeps
this as long as its verdicts do.
-/

namespace GraphQuery

/-- Every row has an accepted handle and a binding set, and every failure is expected. -/
def Feed.Holds (ok : Handle → Prop) (expected : QueryError → Prop) : Feed → Prop
  | .done => True
  | .failed e => expected e
  | .row h sets rest => ok h ∧ sets ≠ [] ∧ ∀ k, (rest k).Holds ok expected

abbrev Feed.Safe (ok : Handle → Prop) (F : Feed) : Prop :=
  F.Holds ok fun _ => False

def SafeRows (ok : Handle → Prop) (rows : List Row) : Prop :=
  ∀ r ∈ rows, ok r.handle ∧ r.sets ≠ []

namespace Feed

variable {ok : Handle → Prop} {expected : QueryError → Prop} {F : Feed}

theorem holds_ofRows {rows : List Row} (hr : SafeRows ok rows) :
    (ofRows rows).Holds ok expected := by
  induction rows with
  | nil => trivial
  | cons r rows ih =>
      have h := hr r (List.mem_cons_self ..)
      exact ⟨h.1, h.2, fun _ => ih fun q hq => hr q (List.mem_cons_of_mem _ hq)⟩

theorem Safe.expectAny (hF : F.Safe ok) : F.Holds ok fun _ => True := by
  induction F with
  | done => trivial
  | failed e => trivial
  | row h sets rest ih => exact ⟨hF.1, hF.2.1, fun k => ih k (hF.2.2 k)⟩

theorem Holds.drain {vet : Handle → Option QueryError}
    (hv : ∀ h e, ok h → vet h = some e → expected e) (hF : F.Holds ok expected) :
    (∀ e, (F.drain vet).error = some e → expected e) ∧ SafeRows ok (F.drain vet).rows := by
  induction F with
  | done => exact ⟨by simp [Feed.drain], by simp [SafeRows, Feed.drain]⟩
  | failed e => exact ⟨fun _ he => Option.some.inj he ▸ hF, by simp [SafeRows, Feed.drain]⟩
  | row h sets rest ih =>
      obtain ⟨hh, hne, hrest⟩ := hF
      unfold Feed.drain
      cases hvet : vet h with
      | some e => exact ⟨fun _ he => Option.some.inj he ▸ hv h e hh hvet, by simp [SafeRows]⟩
      | none =>
          obtain ⟨he, hrows⟩ := ih _ (hrest (sets.length - 1))
          refine ⟨he, fun r hr => ?_⟩
          rcases List.mem_cons.1 hr with rfl | hr
          · exact ⟨hh, hne⟩
          · exact hrows r hr

theorem Holds.delivered (hF : F.Holds ok expected) :
    (∀ e, F.delivered.error = some e → expected e) ∧ SafeRows ok F.delivered.rows :=
  hF.drain (by simp)

theorem Safe.drain {vet : Handle → Option QueryError} (hv : ∀ h, ok h → vet h = none)
    (hF : F.Safe ok) : (F.drain vet).error = none ∧ SafeRows ok (F.drain vet).rows :=
  (Holds.drain (fun h e hh he => by simp [hv h hh] at he) hF).imp_left
    Option.eq_none_iff_forall_ne_some.2

theorem Safe.delivered (hF : F.Safe ok) : F.delivered.error = none ∧ SafeRows ok F.delivered.rows :=
  hF.drain fun _ _ => rfl

theorem Holds.sift {α μ : Type} {verdicts : Verdicts α μ}
    (build : α → Handle → List Tags → (Nat → Feed) → Feed)
    (hv : ∀ h m e, ok h → (verdicts h m).1 = .failed e → expected e)
    (hb : ∀ {a h m sets rest}, (verdicts h m).1 = .found a → ok h → sets ≠ [] →
      (∀ k, Holds ok expected (rest k)) → (build a h sets rest).Holds ok expected)
    (hF : F.Holds ok expected) (m : μ) : (F.sift verdicts build m).Holds ok expected := by
  induction F generalizing m with
  | done => trivial
  | failed e => exact hF
  | row h sets rest ih =>
      obtain ⟨hh, hne, hrest⟩ := hF
      unfold Feed.sift
      cases ha : (verdicts h m).1 with
      | found a => exact hb ha hh hne fun k => ih k (hrest k) _
      | nothing => exact ih 0 (hrest 0) _
      | failed e => exact hv h m e hh ha

theorem Holds.sieve {μ : Type} {verdicts : Verdicts Unit μ}
    (hv : ∀ h m e, ok h → (verdicts h m).1 = .failed e → expected e) (hF : F.Holds ok expected)
    (m : μ) : (F.sieve verdicts m).Holds ok expected :=
  hF.sift (fun _ => .row) hv (fun _ hh hne hrest => ⟨hh, hne, hrest⟩) m

theorem Holds.mapSets (hF : F.Holds ok expected) (g : Handle → Tags → Tags) :
    (F.mapSets g).Holds ok expected := by
  induction F with
  | done => trivial
  | failed e => exact hF
  | row h sets rest ih => exact ⟨hF.1, by simpa using hF.2.1, fun k => ih k (hF.2.2 k)⟩

theorem Holds.limit (hF : F.Holds ok expected) (n count : Nat) :
    (F.limit n count).Holds ok expected := by
  induction F generalizing count with
  | done => trivial
  | failed e =>
      unfold Feed.limit
      split
      · exact hF
      · trivial
  | row h sets rest ih =>
      obtain ⟨hh, hne, hrest⟩ := hF
      unfold Feed.limit
      by_cases hc : n = 0 ∨ count < n
      · rw [if_pos hc]
        refine ⟨hh, ?_, fun k => ih k (hrest k) _⟩
        obtain ⟨t, ts, rfl⟩ := List.exists_cons_of_ne_nil hne
        rw [visible_cons hc]
        simp
      · rw [if_neg hc]
        trivial

theorem Holds.skip (hF : F.Holds ok expected) (n : Nat) : (F.skip n).Holds ok expected := by
  induction n generalizing F with
  | zero => exact hF
  | succ n ih =>
      cases F with
      | done => trivial
      | failed e => exact hF
      | row h sets rest => exact ih (hF.2.2 0)

theorem Holds.append {G : Feed} (hF : F.Holds ok expected) (hG : G.Holds ok expected) :
    (F.append G).Holds ok expected := by
  induction F with
  | done => exact hG
  | failed e => exact hF
  | row h sets rest ih => exact ⟨hF.1, hF.2.1, fun k => ih k (hF.2.2 k)⟩

theorem holds_concat {Fs : List Feed} (hF : ∀ F ∈ Fs, F.Holds ok expected) :
    (concat Fs).Holds ok expected := by
  induction Fs with
  | nil => trivial
  | cons F Fs ih =>
      exact (hF F (List.mem_cons_self ..)).append
        (ih fun G hG => hF G (List.mem_cons_of_mem _ hG))

theorem holds_walk {reached : QuadId → Answer (Handle × List (List Tags))} {own : List Tags}
    {next : Feed} (hr : ∀ id e, reached id = .failed e → expected e)
    (hok : ∀ id h sets, reached id = .found (h, sets) → ok h) (hn : next.Holds ok expected)
    (quads : List QuadId) : (walk reached own quads next).Holds ok expected := by
  induction quads with
  | nil => exact hn
  | cons id quads ih =>
      unfold Feed.walk
      cases ha : reached id with
      | found r => exact ⟨hok id r.1 r.2 ha, Combinations.all_ne_nil _, fun _ => ih⟩
      | nothing => exact ih
      | failed e => exact hr id e ha

theorem Holds.step {T : Trail} {D : QuadReplies}
    (hr : ∀ id e, T.reached D id = .failed e → expected e)
    (hok : ∀ id h sets, T.reached D id = .found (h, sets) → ok h) (hF : F.Holds ok expected) :
    (F.step T D).Holds ok expected := by
  induction F with
  | done => trivial
  | failed e => exact hF
  | row h sets rest ih => exact holds_walk hr hok (ih _ (hF.2.2 _)) _

theorem Holds.sorted {store : QuadStore} (hv : ∀ h e, ok h → store.vet h = some e → expected e)
    (hF : F.Holds ok expected) : (F.sorted store).Holds ok expected := by
  obtain ⟨he, hr⟩ := hF.drain hv
  unfold Feed.sorted
  cases herr : (F.drain store.vet).error with
  | some e => exact he e herr
  | none => exact holds_ofRows fun r hm => hr r ((List.mergeSort_perm _ _).mem_iff.1 hm)

theorem holds_queued {tagsAt : Tags → Tags} {next : Feed} (hn : next.Holds ok expected)
    {queue : Reached} (hq : ∀ p ∈ queue, ok p.1) :
    (queued tagsAt queue next).Holds ok expected := by
  induction queue with
  | nil => exact hn
  | cons p queue ih =>
      exact ⟨hq p (List.mem_cons_self ..), by simp,
        fun _ => ih fun q hq' => hq q (List.mem_cons_of_mem _ hq')⟩

end Feed

/-! ## Levels -/

/-- What a level shows and what it passes on comes from its results. -/
theorem Level.forall_ofRows {ok : Handle → Prop} {rows : List Row} (hr : SafeRows ok rows)
    (bindings : ClosureBindings) (seen frontier : Reached) :
    (∀ p ∈ (Level.ofRows bindings seen frontier rows).shown, ok p.1) ∧
      ∀ p ∈ (Level.ofRows bindings seen frontier rows).fresh, ok p.1 := by
  have hl := made_ofRows bindings seen frontier rows
  have hshown : ∀ p ∈ (Level.ofRows bindings seen frontier rows).shown, ok p.1 := by
    intro p hp
    obtain ⟨row, hrow, heq⟩ := (origin_of_mem_shown hp).1
    exact heq ▸ (hr row hrow).1
  exact ⟨hshown, fun p hp => hshown p (hl.mem_fresh.1 hp).1⟩

theorem Reached.forall_ofRows {ok : Handle → Prop} {rows : List Row} (hr : SafeRows ok rows) :
    ∀ p ∈ Reached.ofRows rows, ok p.1 := by
  intro p hp
  obtain ⟨row, hrow, heq, -⟩ := mem_ofRows.1 hp
  exact heq ▸ (hr row hrow).1

namespace Feed

variable {ok : Handle → Prop} {expected : QueryError → Prop} {F : Feed}
  {bindings : ClosureBindings} {maxDepth : Nat} {tagsAt : Nat → Tags → Tags}
  {expand : Reached → Delivered}

def HoldsExpansion (ok : Handle → Prop) (expected : QueryError → Prop)
    (expand : Reached → Delivered) : Prop :=
  ∀ frontier : Reached, (∀ p ∈ frontier, ok p.1) →
    (∀ e, (expand frontier).error = some e → expected e) ∧ SafeRows ok (expand frontier).rows

def SafeExpansion (ok : Handle → Prop) (expand : Reached → Delivered) : Prop :=
  ∀ frontier : Reached, (∀ p ∈ frontier, ok p.1) →
    (expand frontier).error = none ∧ SafeRows ok (expand frontier).rows

theorem SafeExpansion.holds (he : SafeExpansion ok expand) : HoldsExpansion ok expected expand :=
  fun frontier hf => (he frontier hf).imp_left fun hnone e herr => by simp [hnone] at herr

theorem holds_levels (he : HoldsExpansion ok expected expand) (seen frontier : Reached)
    (depth : Nat) (hf : ∀ p ∈ frontier, ok p.1) :
    (levels bindings maxDepth tagsAt expand seen frontier depth).Holds ok expected := by
  induction seen, frontier, depth using levels.induct bindings maxDepth expand with
  | case1 seen frontier depth hopen e herr =>
      rw [levels, dif_pos hopen, herr]
      exact (he frontier hf).1 e herr
  | case2 seen frontier depth hopen hnone l hshown =>
      rw [levels, dif_pos hopen, hnone]
      simp only
      rw [if_pos hshown]
      trivial
  | case3 seen frontier depth hopen hnone l hshown ih =>
      have hl := Level.forall_ofRows (he frontier hf).2 bindings seen frontier
      rw [levels, dif_pos hopen, hnone]
      simp only
      rw [if_neg hshown]
      exact holds_queued (ih hl.2) hl.1
  | case4 seen frontier depth hclosed =>
      rw [levels, dif_neg hclosed]
      trivial

theorem Holds.closure (he : HoldsExpansion ok expected expand) (hF : F.Holds ok expected) :
    (F.closure bindings maxDepth tagsAt expand).Holds ok expected := by
  unfold Feed.closure
  cases herr : F.delivered.error with
  | some e => exact hF.delivered.1 e herr
  | none => exact holds_levels he _ _ _ (Reached.forall_ofRows hF.delivered.2)

end Feed

end GraphQuery
