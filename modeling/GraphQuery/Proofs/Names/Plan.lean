import GraphQuery.Proofs.Names.Feed

/-!
# The names that plans bind

A plan binds no names but those it holds. The name of the base of a closure is bound within the
morphism only: what a closure shows has the binding sets of its seeds.
-/

namespace GraphQuery

structure Meaning.Binds (ok : String → Prop) (M : Meaning) : Prop where
  feed : M.feed.Binds ok
  reply : RepliesBind ok M.reply

variable {ok : String → Prop}

theorem Meaning.binds_leaf (handles : List Handle) (mem : Handle → Bool) :
    (Meaning.leaf handles mem).Binds ok where
  feed := Feed.binds_ofRows fun r hr => by
    obtain ⟨h, -, rfl⟩ := List.mem_map.1 hr
    simp [Row.bare, Tags.binds_empty]
  reply h t ht := by
    obtain rfl : t = .empty := by
      change t ∈ (Reply.ofMem mem h).sets at ht
      unfold Reply.ofMem at ht
      split at ht
      · simpa [Reply.ofSets] using ht
      · simp [Reply.absent] at ht
    exact Tags.binds_empty

theorem Meaning.Binds.ofFeed {F : Feed} (hF : F.Binds ok) : (Meaning.ofFeed F).Binds ok :=
  ⟨hF, hF.delivered.reply _⟩

theorem Meaning.Binds.paged {M : Meaning} (hM : M.Binds ok) (n : Nat) {F : Feed}
    (hF : F.Binds ok) : (M.paged n F).Binds ok := by
  refine ⟨hF, ?_⟩
  unfold Meaning.paged
  split
  · exact hM.reply
  · exact hF.delivered.reply _

theorem Meaning.Binds.sieve {M : Meaning} (hM : M.Binds ok)
    (onResult onCandidate : Handle → Answer Unit) : (M.sieve onResult onCandidate).Binds ok :=
  ⟨hM.feed.sieve (), hM.reply.sieve⟩

theorem Meaning.Binds.naming {M : Meaning} (hM : M.Binds ok) {names : List String}
    (hn : ∀ n ∈ names, ok n) : (M.naming names).Binds ok where
  feed := hM.feed.mapSets fun h t ht => ht.insertAll hn h
  reply h t ht := by
    obtain ⟨u, hu, rfl⟩ := List.mem_map.1 ht
    exact (hM.reply h u hu).insertAll hn h

theorem Meaning.Binds.join {Ms : List Meaning} (hM : ∀ M ∈ Ms, M.Binds ok) (primary : Nat) :
    (Meaning.join Ms primary).Binds ok := by
  have hreplies : ∀ Ns : List Meaning, (∀ M ∈ Ns, M ∈ Ms) →
      ∀ reply ∈ Ns.map Meaning.reply, RepliesBind ok reply := fun Ns hNs =>
    List.forall_mem_map.2 fun M h => (hM M (hNs M h)).reply
  unfold Meaning.join
  cases hd : Ms[primary]? with
  | none => exact Meaning.binds_leaf _ _
  | some M =>
      have hothers := hreplies (Ms.eraseIdx primary) fun _ => List.mem_of_mem_eraseIdx
      exact ⟨(hM M (List.mem_of_getElem? hd)).feed.join hothers _,
        RepliesBind.join (hreplies Ms fun _ h => h) _⟩

theorem Meaning.Binds.union {Ms : List Meaning} (hM : ∀ M ∈ Ms, M.Binds ok) :
    (Meaning.union Ms).Binds ok where
  feed := Feed.binds_concat (List.forall_mem_map.2 fun M h => (hM M h).feed)
  reply := RepliesBind.concat (List.forall_mem_map.2 fun M h => (hM M h).reply)

theorem Meaning.Binds.step {M : Meaning} (hM : M.Binds ok) (T : Trail) {via labels : Option Meaning}
    {own : List String} (hvia : ∀ N ∈ via, N.Binds ok) (hown : ∀ n ∈ own, ok n)
    (hlabels : ∀ N ∈ labels, N.Binds ok) :
    (M.step T ⟨via.map Meaning.reply, own, labels.map Meaning.reply⟩).Binds ok := by
  have hreply : ∀ N : Option Meaning, (∀ M ∈ N, M.Binds ok) →
      ∀ reply ∈ N.map Meaning.reply, RepliesBind ok reply := by
    intro N hN reply hreply
    obtain ⟨M, hM, rfl⟩ := Option.map_eq_some_iff.1 hreply
    exact (hN M hM).reply
  have hD : QuadReplies.Bind ok ⟨via.map Meaning.reply, own, labels.map Meaning.reply⟩ :=
    ⟨hreply via hvia, hown, hreply labels hlabels⟩
  exact ⟨hM.feed.step hD, hM.reply.step hD⟩

namespace Plan

mutual

/-- The names that the plan holds, with those of its operands. Those of a morphism are bound within
it only. -/
def names : Plan → List String
  | .fixed _ | .null | .all | .input => []
  | .and operands _ | .or operands => namesOfAll operands
  | .not forbidden whole => names forbidden ++ names whole
  | .save p own => names p ++ own
  | .unique p | .limit p _ | .skip p _ | .sort p | .filter p _ | .map p _ | .constraint p _ =>
      names p
  | .step source _ _ via own labels =>
      names source ++ namesOfOption via ++ own ++ namesOfOption labels
  | .recursive p _ _ depthNames _ => names p ++ depthNames

def namesOfAll : List Plan → List String
  | [] => []
  | p :: ps => names p ++ namesOfAll ps

def namesOfOption : Option Plan → List String
  | none => []
  | some p => names p

end

theorem names_ofValues (store : QuadStore) (values : List Value) :
    (Plan.ofValues store values).names = [] :=
  rfl

theorem names_step_iff {source : Plan} {fromEnd toEnd : Direction} {via labels : Option Plan}
    {own : List String} : (∀ n ∈ (Plan.step source fromEnd toEnd via own labels).names, ok n) ↔
      (∀ n ∈ source.names, ok n) ∧ (∀ n ∈ namesOfOption via, ok n) ∧ (∀ n ∈ own, ok n) ∧
        ∀ n ∈ namesOfOption labels, ok n := by
  simp only [names, List.forall_mem_append, and_assoc]

theorem namesOfAll_pair_iff {p q : Plan} :
    (∀ n ∈ namesOfAll [p, q], ok n) ↔ (∀ n ∈ p.names, ok n) ∧ ∀ n ∈ q.names, ok n := by
  simp only [namesOfAll, List.append_nil, List.forall_mem_append]

variable {H : Meaning} (store : QuadStore)

mutual

/-- A plan binds only what it holds and what is bound in the hole. -/
theorem binds_on (hH : H.Binds ok) :
    ∀ p : Plan, (∀ n ∈ p.names, ok n) → (p.meaningOn store H).Binds ok
  | .fixed handles, _ => Meaning.binds_leaf _ _
  | .null, _ => Meaning.binds_leaf _ _
  | .all, _ => Meaning.binds_leaf _ _
  | .input, _ => hH
  | .and operands primary, hn => .join (binds_all hH operands hn) _
  | .or operands, hn => .union (binds_all hH operands hn)
  | .not forbidden whole, hn =>
      (binds_on hH whole fun n hm => hn n (List.mem_append_right _ hm)).sieve _ _
  | .unique p, hn => .ofFeed ((binds_on hH p hn).feed.sieve [])
  | .save p own, hn =>
      (binds_on hH p fun n hm => hn n (List.mem_append_left _ hm)).naming fun n hm =>
        hn n (List.mem_append_right _ hm)
  | .limit p n, hn =>
      have hM := binds_on hH p hn
      hM.paged n (hM.feed.limit n 0)
  | .skip p n, hn =>
      have hM := binds_on hH p hn
      hM.paged n (hM.feed.skip n)
  | .sort p, hn =>
      have hM := binds_on hH p hn
      ⟨hM.feed.sorted store, hM.reply⟩
  | .step source fromEnd toEnd via own labels, hn => by
      obtain ⟨hsource, hvia, hown, hlabels⟩ := names_step_iff.1 hn
      exact (binds_on hH source hsource).step ⟨store, fromEnd, toEnd⟩ (binds_option hH via hvia)
        hown (binds_option hH labels hlabels)
  | .filter p test, hn => (binds_on hH p hn).sieve _ _
  | .map p f, hn =>
      .ofFeed ((binds_on hH p hn).feed.sift (fun image _ => .row image)
        (fun hsets hrest => ⟨hsets, hrest⟩) ())
  | .constraint p cs, hn => (binds_on hH p hn).sieve _ _
  | .recursive p morphism maxDepth depthNames bindings, hn => by
      simp only [names, List.mem_append, or_imp, forall_and] at hn
      exact .ofFeed ((binds_on hH p hn.1).feed.closure fun k t ht =>
        Closure.binds_tagsAt store hn.2 k ht)

theorem binds_all (hH : H.Binds ok) :
    ∀ ps : List Plan, (∀ n ∈ namesOfAll ps, ok n) →
      ∀ M ∈ meaningOfAll store H ps, M.Binds ok
  | [], _, M, hM => by simp [meaningOfAll] at hM
  | p :: ps, hn, M, hM => by
      simp only [namesOfAll, List.mem_append, or_imp, forall_and] at hn
      rcases List.mem_cons.1 hM with rfl | hM
      · exact binds_on hH p hn.1
      · exact binds_all hH ps hn.2 M hM

theorem binds_option (hH : H.Binds ok) :
    ∀ p : Option Plan, (∀ n ∈ namesOfOption p, ok n) →
      ∀ M ∈ meaningOfOption store H p, M.Binds ok
  | none, _, M, hM => by simp [meaningOfOption] at hM
  | some p, hn, M, hM => by
      obtain rfl : meaningOn store H p = M := by simpa [meaningOfOption] using hM
      exact binds_on hH p hn

end

/-- A plan binds no names but those it holds. -/
theorem binds (p : Plan) (hn : ∀ n ∈ p.names, ok n) : (p.meaning store).Binds ok :=
  binds_on store (Meaning.binds_leaf [] fun _ => false) p hn

end Plan

end GraphQuery
