import GraphQuery.Proofs.Allowance
import GraphQuery.Proofs.Meaning

/-!
# Feeds that do not mind turning

Only a limit counts the turns at its results. What a plan without limits shows after a result is the
same after each number of turns.
-/

namespace GraphQuery

namespace Feed

/-- After each result, every number of turns leaves the same to pull from. -/
def Uniform : Feed → Prop
  | .done | .failed _ => True
  | .row _ _ rest => ∀ k, rest k = rest 0 ∧ (rest k).Uniform

variable {F G : Feed}

theorem uniform_row {h : Handle} {sets : List Tags} (hF : F.Uniform) :
    (row h sets fun _ => F).Uniform :=
  fun _ => ⟨rfl, hF⟩

theorem uniform_ofRows (rows : List Row) : (ofRows rows).Uniform := by
  induction rows with
  | nil => trivial
  | cons r rows ih => exact uniform_row ih

theorem Uniform.mapSets (hF : F.Uniform) (g : Handle → Tags → Tags) : (F.mapSets g).Uniform := by
  induction F with
  | done => trivial
  | failed e => trivial
  | row h sets rest ih => exact fun k => ⟨congrArg _ (hF k).1, ih k (hF k).2⟩

/-- A sift of such a feed is one, if the rows that it builds are. -/
theorem Uniform.sift {α μ : Type} {verdicts : Verdicts α μ}
    {build : α → Handle → List Tags → (Nat → Feed) → Feed}
    (hbuild : ∀ a h sets rest, (∀ k, rest k = rest 0 ∧ (rest k).Uniform) →
      (build a h sets rest).Uniform) (hF : F.Uniform) (m : μ) :
    (F.sift verdicts build m).Uniform := by
  induction F generalizing m with
  | done => trivial
  | failed e => trivial
  | row h sets rest ih =>
      unfold Feed.sift
      cases (verdicts h m).1 with
      | found a =>
          exact hbuild a h sets _ fun k => ⟨congrArg (Feed.sift verdicts build · _) (hF k).1,
            ih k (hF k).2 _⟩
      | nothing => exact ih 0 (hF 0).2 _
      | failed e => trivial

theorem Uniform.sieve {μ : Type} {verdicts : Verdicts Unit μ} (hF : F.Uniform) (m : μ) :
    (F.sieve verdicts m).Uniform := by
  unfold Feed.sieve
  refine hF.sift (fun _ _ _ _ hrest => ?_) m
  exact hrest

theorem Uniform.mapped (hF : F.Uniform) (store : QuadStore) (f : Value → Except String Value) :
    (F.mapped store f).Uniform := by
  unfold Feed.mapped
  refine hF.sift (fun _ _ _ _ hrest => ?_) ()
  exact hrest

theorem Uniform.join (hF : F.Uniform) (replies : List (Handle → Reply)) (position : Nat) :
    (F.join replies position).Uniform := by
  refine hF.sift (fun _ h sets rest hrest => ?_) ()
  unfold joinedRow
  split
  · exact uniform_row (hrest _).2
  · trivial
  · trivial

theorem Uniform.append (hF : F.Uniform) (hG : G.Uniform) : (F.append G).Uniform := by
  induction F with
  | done => exact hG
  | failed e => trivial
  | row h sets rest ih => exact fun k => ⟨congrArg (Feed.append · G) (hF k).1, ih k (hF k).2⟩

theorem uniform_concat {Fs : List Feed} (hFs : ∀ F ∈ Fs, F.Uniform) : (concat Fs).Uniform := by
  induction Fs with
  | nil => trivial
  | cons F Fs ih =>
      exact (hFs F (List.mem_cons_self ..)).append
        (ih fun G hG => hFs G (List.mem_cons_of_mem _ hG))

theorem Uniform.skip (hF : F.Uniform) (n : Nat) : (F.skip n).Uniform := by
  induction n generalizing F with
  | zero => exact hF
  | succ n ih =>
      cases F with
      | done => trivial
      | failed e => trivial
      | row h sets rest => exact ih (hF 0).2

theorem uniform_sorted (F : Feed) (store : QuadStore) : (F.sorted store).Uniform := by
  unfold Feed.sorted
  split
  · trivial
  · exact uniform_ofRows _

theorem Uniform.walk {reached : QuadId → Answer (Handle × List (List Tags))} {own : List Tags}
    (hF : F.Uniform) (quads : List QuadId) : (walk reached own quads F).Uniform := by
  induction quads with
  | nil => exact hF
  | cons id quads ih =>
      unfold Feed.walk
      split
      · exact uniform_row ih
      · exact ih
      · trivial

theorem Uniform.step (hF : F.Uniform) (T : Trail) (D : QuadReplies) : (F.step T D).Uniform := by
  induction F with
  | done => trivial
  | failed e => trivial
  | row h sets rest ih => exact (ih _ (hF _).2).walk _

theorem Uniform.queued {tagsAt : Tags → Tags} (hF : F.Uniform) (queue : Reached) :
    (queued tagsAt queue F).Uniform := by
  induction queue with
  | nil => exact hF
  | cons p queue ih => exact uniform_row ih

theorem uniform_levels {bindings : ClosureBindings} {maxDepth : Nat} {tagsAt : Nat → Tags → Tags}
    {expand : Reached → Delivered} (seen frontier : Reached) (depth : Nat) :
    (levels bindings maxDepth tagsAt expand seen frontier depth).Uniform := by
  fun_induction levels bindings maxDepth tagsAt expand seen frontier depth with
  | case1 => trivial
  | case2 => trivial
  | case3 seen frontier depth hopen herror l hshown ih => exact ih.queued _
  | case4 => trivial

/-- A closure delivers its levels, however it comes by its seeds. -/
theorem uniform_closure (bindings : ClosureBindings) (maxDepth : Nat) (tagsAt : Nat → Tags → Tags)
    (expand : Reached → Delivered) (F : Feed) :
    (F.closure bindings maxDepth tagsAt expand).Uniform := by
  unfold Feed.closure
  split
  · trivial
  · exact uniform_levels ..

end Feed

/-- Whatever a plan may hold but a limit that bounds anything. -/
def Allowance.boundless : Allowance where
  limit n := n = 0
  test _ := True
  map _ := True
  literal _ := True

namespace Plan

mutual

/-- Without limits no plan minds how often one turns at its results. -/
theorem uniform_on (store : QuadStore) {hole : Meaning} (hh : hole.feed.Uniform) :
    ∀ p : Plan, p.Within .boundless → (p.meaningOn store hole).feed.Uniform
  | .fixed _, _ | .null, _ | .all, _ => Feed.uniform_ofRows _
  | .input, _ => hh
  | .and operands primary, hp => by
      show (Meaning.join (meaningOfAll store hole operands) (driver operands primary)).feed.Uniform
      unfold Meaning.join
      cases hm : (meaningOfAll store hole operands)[driver operands primary]? with
      | none => exact Feed.uniform_ofRows _
      | some M => exact (uniform_all store hh operands hp M (List.mem_of_getElem? hm)).join _ _
  | .or operands, hp => by
      refine Feed.uniform_concat fun F hF => ?_
      obtain ⟨M, hM, rfl⟩ := List.mem_map.1 hF
      exact uniform_all store hh operands hp M hM
  | .not _ whole, hp => (uniform_on store hh whole hp.2).sieve ()
  | .unique p, hp => (uniform_on store hh p hp).sieve []
  | .save p _, hp => (uniform_on store hh p hp).mapSets _
  | .limit p n, hp => by
      obtain ⟨rfl, hp⟩ := hp
      show (Feed.limit 0 _ 0).Uniform
      rw [Feed.limit_zero]
      exact uniform_on store hh p hp
  | .skip p n, hp => (uniform_on store hh p hp).skip n
  | .sort p, _ => Feed.uniform_sorted _ store
  | .step source .., hp => (uniform_on store hh source hp.1).step _ _
  | .filter p _, hp => (uniform_on store hh p hp.2).sieve ()
  | .map p f, hp => (uniform_on store hh p hp.2).mapped store f
  | .constraint p _, hp => (uniform_on store hh p hp).sieve ()
  | .recursive p .., _ => Feed.uniform_closure _ _ _ _ _

theorem uniform_all (store : QuadStore) {hole : Meaning} (hh : hole.feed.Uniform) :
    ∀ ps : List Plan, WithinAll .boundless ps →
      ∀ M ∈ meaningOfAll store hole ps, M.feed.Uniform
  | [], _, M, hM => by cases hM
  | p :: ps, hp, M, hM => by
      rcases List.mem_cons.1 hM with rfl | hM
      · exact uniform_on store hh p hp.1
      · exact uniform_all store hh ps hp.2 M hM

end

theorem uniform (store : QuadStore) {p : Plan} (hp : p.Within .boundless) :
    (p.meaning store).feed.Uniform :=
  uniform_on store (Feed.uniform_ofRows _) p hp

end Plan

end GraphQuery
