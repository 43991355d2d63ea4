import GraphQuery.Proofs.Allowance
import GraphQuery.Proofs.Safety.Reply

/-!
# Plans that cannot fail

Over a coherent store the meaning of a plan is safe if its literal handles are nodes and its
callbacks succeed on the values that the store holds; limits do not matter. If callbacks may fail,
what is shown before that are nodes all the same.
-/

namespace GraphQuery

/-- The callback has a result for every value that the store holds. -/
def QuadStore.Total {α : Type} (store : QuadStore) (f : Value → Except String α) : Prop :=
  ∀ h v, store.resolve h = some v → ∃ a, f v = .ok a

/-- Literal handles are nodes and callbacks succeed; limits are as they like. -/
def QuadStore.harmless (store : QuadStore) : Allowance where
  limit _ := True
  test := store.Total
  map := store.Total
  literal h := h ∈ store.nodes

/-- Literal handles are nodes; limits and callbacks are as they like. -/
def QuadStore.native (store : QuadStore) : Allowance where
  limit _ := True
  test _ := True
  map _ := True
  literal h := h ∈ store.nodes

structure Meaning.Safe (ok : Handle → Prop) (M : Meaning) : Prop where
  feed : M.feed.Safe ok
  reply : Faultless M.reply

section Tests

variable {store : QuadStore} {test : ValueTest}

theorem verdictOn_ne_failed (ht : store.Total test) {unknown : Handle → Answer Unit} {h : Handle}
    (hu : store.resolve h = none → ∀ e, unknown h ≠ .failed e) (e : QueryError) :
    verdictOn store test unknown h ≠ .failed e := by
  unfold verdictOn
  cases hr : store.resolve h with
  | none => exact hu hr e
  | some v =>
      obtain ⟨b, hb⟩ := ht h v hr
      simp only [hb]
      cases b <;> simp

theorem Meaning.Safe.testing (hs : store.Coherent) (ht : store.Total test) {M : Meaning}
    (hM : M.Safe (· ∈ store.nodes)) :
    (M.sieve (verdictOn store test fun h => .failed (.unknownHandle h))
      (verdictOn store test fun _ => .nothing)).Safe (· ∈ store.nodes) where
  feed := by
    refine hM.feed.sieve (fun h _ e hh => ?_) ()
    show verdictOn store test (fun h => .failed (.unknownHandle h)) h ≠ .failed e
    refine verdictOn_ne_failed ht (fun hr => ?_) e
    obtain ⟨v, hv⟩ := hs.exists_value hh
    rw [hr] at hv
    simp at hv
  reply := faultless_sieve (fun h e => verdictOn_ne_failed ht (fun _ _ => by simp) e) hM.reply

theorem Meaning.Safe.ofFeed {ok : Handle → Prop} {F : Feed} (hF : F.Safe ok) :
    (Meaning.ofFeed F).Safe ok :=
  ⟨hF, faultless_reply hF.delivered.1⟩

theorem Meaning.Safe.paged {ok : Handle → Prop} {M : Meaning} (hM : M.Safe ok) (n : Nat) {F : Feed}
    (hF : F.Safe ok) : (M.paged n F).Safe ok := by
  refine ⟨hF, ?_⟩
  unfold Meaning.paged
  split
  · exact hM.reply
  · exact faultless_reply hF.delivered.1

theorem Feed.holds_leaf {ok : Handle → Prop} {expected : QueryError → Prop} {handles : List Handle}
    {mem : Handle → Bool} (hh : ∀ h ∈ handles, ok h) :
    (Meaning.leaf handles mem).feed.Holds ok expected :=
  Feed.holds_ofRows fun r hr => by
    obtain ⟨h, hm, rfl⟩ := List.mem_map.1 hr
    exact ⟨hh h hm, by simp [Row.bare]⟩

theorem Meaning.safe_leaf {ok : Handle → Prop} {handles : List Handle} {mem : Handle → Bool}
    (hh : ∀ h ∈ handles, ok h) : (Meaning.leaf handles mem).Safe ok where
  feed := Feed.holds_leaf hh
  reply h := by
    show (Reply.ofMem mem h).error = none
    unfold Reply.ofMem
    split <;> rfl

theorem Meaning.Safe.naming {ok : Handle → Prop} {M : Meaning} (hM : M.Safe ok)
    (names : List String) : (M.naming names).Safe ok :=
  ⟨hM.feed.mapSets _, fun h => hM.reply h⟩

theorem Meaning.safe_level {ok : Handle → Prop} {frontier : Reached}
    (hf : ∀ p ∈ frontier, ok p.1) : (Meaning.level frontier).Safe ok :=
  (Meaning.safe_leaf (Reached.forall_inputs hf)).naming [baseName]

theorem Meaning.Safe.join {ok : Handle → Prop} {Ms : List Meaning} (hM : ∀ M ∈ Ms, M.Safe ok)
    (primary : Nat) : (Meaning.join Ms primary).Safe ok := by
  have hreplies : ∀ Ns : List Meaning, (∀ M ∈ Ns, M ∈ Ms) →
      ∀ reply ∈ Ns.map Meaning.reply, Faultless reply := fun Ns hNs =>
    List.forall_mem_map.2 fun M h => (hM M (hNs M h)).reply
  unfold Meaning.join
  cases hd : Ms[primary]? with
  | none => exact Meaning.safe_leaf (by simp)
  | some M =>
      have hothers := hreplies (Ms.eraseIdx primary) fun _ => List.mem_of_mem_eraseIdx
      exact ⟨(hM M (List.mem_of_getElem? hd)).feed.join hothers _,
        faultless_join (hreplies Ms fun _ h => h) _⟩

theorem Meaning.Safe.union {ok : Handle → Prop} {Ms : List Meaning} (hM : ∀ M ∈ Ms, M.Safe ok) :
    (Meaning.union Ms).Safe ok where
  feed := Feed.holds_concat (List.forall_mem_map.2 fun M h => (hM M h).feed)
  reply := faultless_concat (List.forall_mem_map.2 fun M h => (hM M h).reply)

theorem Meaning.Safe.step (hs : store.Coherent) {M : Meaning} (hM : M.Safe (· ∈ store.nodes))
    (fromEnd toEnd : Direction) {via labels : Option Meaning}
    (hvia : ∀ N ∈ via, N.Safe (· ∈ store.nodes)) (names : List String)
    (hlabels : ∀ N ∈ labels, N.Safe (· ∈ store.nodes)) :
    (M.step ⟨store, fromEnd, toEnd⟩
      ⟨via.map Meaning.reply, names, labels.map Meaning.reply⟩).Safe (· ∈ store.nodes) := by
  have hreply : ∀ N : Option Meaning, (∀ M ∈ N, M.Safe (· ∈ store.nodes)) →
      ∀ reply ∈ N.map Meaning.reply, Faultless reply := by
    intro N hN reply hreply
    obtain ⟨M, hM, rfl⟩ := Option.map_eq_some_iff.1 hreply
    exact (hN M hM).reply
  have hD : QuadReplies.Faultless ⟨via.map Meaning.reply, names, labels.map Meaning.reply⟩ :=
    ⟨hreply via hvia, hreply labels hlabels⟩
  exact ⟨hM.feed.step hD.reached_ne_failed fun id h sets => Trail.mem_of_reached hs,
    hD.faultless_step hM.reply⟩

theorem imageOf_ne_failed (hs : store.Coherent) {f : ValueMap} (hf : store.Total f) {h : Handle}
    (hh : h ∈ store.nodes) (e : QueryError) : imageOf store f h ≠ .failed e := by
  obtain ⟨v, hv⟩ := hs.exists_value hh
  obtain ⟨w, hw⟩ := hf h v hv
  simp only [imageOf, hv, hw]
  cases store.intern w <;> simp

theorem mem_of_imageOf (hs : store.Coherent) {f : ValueMap} {h image : Handle}
    (hi : imageOf store f h = .found image) : image ∈ store.nodes := by
  unfold imageOf at hi
  cases hr : store.resolve h with
  | none => simp [hr] at hi
  | some v =>
      cases hf : f v with
      | error e => simp [hr, hf] at hi
      | ok w =>
          cases hw : store.intern w with
          | none => simp [hr, hf, hw] at hi
          | some x =>
              simp only [hr, hf, hw, Answer.found.injEq] at hi
              exact hi ▸ hs.mem_of_intern hw

end Tests

namespace Plan

variable {store : QuadStore}

mutual

/-- The meaning of a harmless plan is safe. -/
theorem safe_on (hs : store.Coherent) {H : Meaning} (hH : H.Safe (· ∈ store.nodes)) :
    ∀ p : Plan, p.Within store.harmless → (p.meaningOn store H).Safe (· ∈ store.nodes)
  | .fixed handles, hp => Meaning.safe_leaf hp
  | .null, _ => Meaning.safe_leaf (by simp)
  | .all, _ => Meaning.safe_leaf fun _ hh => hh
  | .input, _ => hH
  | .and operands primary, hp => .join (safe_all hs hH operands hp) _
  | .or operands, hp => .union (safe_all hs hH operands hp)
  | .not forbidden whole, hp =>
      have hf := safe_on hs hH forbidden hp.1
      have hw := safe_on hs hH whole hp.2
      ⟨hw.feed.sieve (fun h _ e _ => Reply.forbid_ne_failed (hf.reply h) e) (),
        faultless_sieve (fun h e => Reply.forbid_ne_failed (hf.reply h) e) hw.reply⟩
  | .unique p, hp => by
      refine Meaning.Safe.ofFeed ((safe_on hs hH p hp).feed.sieve (fun h seen e _ => ?_) [])
      unfold Verdicts.firsts
      split <;> simp
  | .save p names, hp => (safe_on hs hH p hp).naming names
  | .limit p n, hp =>
      have hM := safe_on hs hH p hp.2
      hM.paged n (hM.feed.limit n 0)
  | .skip p n, hp =>
      have hM := safe_on hs hH p hp
      hM.paged n (hM.feed.skip n)
  | .sort p, hp => by
      have hM := safe_on hs hH p hp
      refine ⟨?_, hM.reply⟩
      refine Feed.Holds.sorted (fun h e hh he => ?_) hM.feed
      have hvet : store.vet h = none := if_pos ((hs.resolve_iff h).2 hh)
      simp [hvet] at he
  | .step source fromEnd toEnd via names labels, hp =>
      (safe_on hs hH source hp.1).step hs fromEnd toEnd (safe_option hs hH via hp.2.1) names
        (safe_option hs hH labels hp.2.2)
  | .filter p test, hp => (safe_on hs hH p hp.2).testing hs hp.1
  | .map p f, hp =>
      Meaning.Safe.ofFeed ((safe_on hs hH p hp.2).feed.sift
        (fun image _ => .row image) (fun h _ e hh => imageOf_ne_failed hs hp.1 hh e)
        (fun hi _ hne hrest => ⟨mem_of_imageOf hs hi, hne, hrest⟩) ())
  | .constraint p cs, hp =>
      (safe_on hs hH p hp).testing hs fun h v _ => ⟨_, rfl⟩
  | .recursive p morphism maxDepth depthNames bindings, hp => by
      refine Meaning.Safe.ofFeed (Feed.Holds.closure
        (Feed.SafeExpansion.holds fun frontier hf => ?_) (safe_on hs hH p hp.1).feed)
      exact (safe_on hs (Meaning.safe_level hf) morphism hp.2).feed.delivered

theorem safe_all (hs : store.Coherent) {H : Meaning} (hH : H.Safe (· ∈ store.nodes)) :
    ∀ ps : List Plan, WithinAll store.harmless ps →
      ∀ M ∈ meaningOfAll store H ps, M.Safe (· ∈ store.nodes)
  | [], _, M, hM => by simp [meaningOfAll] at hM
  | p :: ps, hp, M, hM => by
      rcases List.mem_cons.1 hM with rfl | hM
      · exact safe_on hs hH p hp.1
      · exact safe_all hs hH ps hp.2 M hM

theorem safe_option (hs : store.Coherent) {H : Meaning} (hH : H.Safe (· ∈ store.nodes)) :
    ∀ p : Option Plan, WithinOption store.harmless p →
      ∀ M ∈ meaningOfOption store H p, M.Safe (· ∈ store.nodes)
  | none, _, M, hM => by simp [meaningOfOption] at hM
  | some p, hp, M, hM => by
      obtain rfl : meaningOn store H p = M := by simpa [meaningOfOption] using hM
      exact safe_on hs hH p hp

end

mutual

/-- A plan with native literals shows nodes, with a binding set each, until it ends or fails. -/
theorem holds_on (hs : store.Coherent) {H : Meaning}
    (hH : H.feed.Holds (· ∈ store.nodes) fun _ => True) :
    ∀ p : Plan, p.Within store.native →
      (p.meaningOn store H).feed.Holds (· ∈ store.nodes) fun _ => True
  | .fixed handles, hp => Feed.holds_leaf hp
  | .null, _ => Feed.holds_leaf (by simp)
  | .all, _ => Feed.holds_leaf fun _ hh => hh
  | .input, _ => hH
  | .and operands primary, hp => by
      have hall := holds_all hs hH operands hp
      simp only [meaningOn, Meaning.join]
      cases hd : (meaningOfAll store H operands)[driver operands primary]? with
      | none => exact Feed.holds_leaf (by simp)
      | some M =>
          exact (hall M (List.mem_of_getElem? hd)).join (fun _ _ _ _ => trivial)
            (fun _ _ _ => trivial) _
  | .or operands, hp => by
      refine Feed.holds_concat fun F hF => ?_
      obtain ⟨M, hM, rfl⟩ := List.mem_map.1 hF
      exact holds_all hs hH operands hp M hM
  | .not forbidden whole, hp => (holds_on hs hH whole hp.2).sieve (fun _ _ _ _ _ => trivial) ()
  | .unique p, hp => Feed.Holds.sieve (fun _ _ _ _ _ => trivial) (holds_on hs hH p hp) []
  | .save p _, hp => (holds_on hs hH p hp).mapSets _
  | .limit p n, hp => (holds_on hs hH p hp.2).limit n 0
  | .skip p n, hp => Feed.Holds.skip (holds_on hs hH p hp) n
  | .sort p, hp => Feed.Holds.sorted (fun _ _ _ _ => trivial) (holds_on hs hH p hp)
  | .step source _ _ _ _ _, hp =>
      (holds_on hs hH source hp.1).step (fun _ _ _ => trivial)
        fun _ _ _ => Trail.mem_of_reached hs
  | .filter p _, hp => (holds_on hs hH p hp.2).sieve (fun _ _ _ _ _ => trivial) ()
  | .map p _, hp =>
      (holds_on hs hH p hp.2).sift (fun image _ => .row image) (fun _ _ _ _ _ => trivial)
        (fun hi _ hne hrest => ⟨mem_of_imageOf hs hi, hne, hrest⟩) ()
  | .constraint p _, hp => Feed.Holds.sieve (fun _ _ _ _ _ => trivial) (holds_on hs hH p hp) ()
  | .recursive p morphism _ _ _, hp =>
      Feed.Holds.closure (fun _ hf =>
        (holds_on hs (Meaning.safe_level hf).feed.expectAny morphism hp.2).delivered)
        (holds_on hs hH p hp.1)

theorem holds_all (hs : store.Coherent) {H : Meaning}
    (hH : H.feed.Holds (· ∈ store.nodes) fun _ => True) :
    ∀ ps : List Plan, WithinAll store.native ps →
      ∀ M ∈ meaningOfAll store H ps, M.feed.Holds (· ∈ store.nodes) fun _ => True
  | [], _, M, hM => by simp [meaningOfAll] at hM
  | p :: ps, hp, M, hM => by
      rcases List.mem_cons.1 hM with rfl | hM
      · exact holds_on hs hH p hp.1
      · exact holds_all hs hH ps hp.2 M hM

end

end Plan

end GraphQuery
