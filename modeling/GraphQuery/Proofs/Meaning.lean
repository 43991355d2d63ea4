import GraphQuery.Plan.Roles
import GraphQuery.Proofs.Feed.Closure
import GraphQuery.Proofs.Feed.Paging
import GraphQuery.Proofs.Feed.Step
import GraphQuery.Proofs.Feed.Union

/-!
# What plans mean

The meaning of a plan is the feed of its scanner and the replies of its index, built from those of
its operands. Nothing is asked of the store, of the callbacks or of the plan: the two cursors of
every plan realize its meaning.
-/

namespace GraphQuery

/-- A page of the results. The replies come from a record of it, unless the count is zero. -/
def Meaning.paged (M : Meaning) (n : Nat) (F : Feed) : Meaning :=
  ⟨F, if n = 0 then M.reply else F.delivered.reply⟩

def Meaning.sorted (M : Meaning) (store : QuadStore) : Meaning :=
  ⟨M.feed.sorted store, M.reply⟩

def Meaning.level (frontier : Reached) : Meaning :=
  (Meaning.leaf frontier.inputs.toList frontier.inputs.contains).naming [baseName]

namespace Plan

mutual

/-- The meaning of a plan. `hole` is what stands in the hole of a morphism. -/
def meaningOn (store : QuadStore) (hole : Meaning) : Plan → Meaning
  | .fixed handles => .leaf handles.toList handles.contains
  | .null => .leaf [] fun _ => false
  | .all => .leaf store.nodes store.containsNode
  | .input => hole
  | .and operands primary => .join (meaningOfAll store hole operands) (driver operands primary)
  | .or operands => .union (meaningOfAll store hole operands)
  | .not forbidden whole =>
      let N := meaningOn store hole forbidden
      (meaningOn store hole whole).sieve (fun h => (N.reply h).forbid) fun h => (N.reply h).forbid
  | .unique p => .ofFeed (meaningOn store hole p).feed.firsts
  | .save p names => (meaningOn store hole p).naming names
  | .limit p n =>
      let M := meaningOn store hole p
      M.paged n (M.feed.limit n 0)
  | .skip p n =>
      let M := meaningOn store hole p
      M.paged n (M.feed.skip n)
  | .sort p => (meaningOn store hole p).sorted store
  | .step source fromEnd toEnd via names labels =>
      (meaningOn store hole source).step ⟨store, fromEnd, toEnd⟩
        ⟨(meaningOfOption store hole via).map Meaning.reply, names,
          (meaningOfOption store hole labels).map Meaning.reply⟩
  | .filter p test =>
      (meaningOn store hole p).sieve (verdictOn store test fun h => .failed (.unknownHandle h))
        (verdictOn store test fun _ => .nothing)
  | .map p f => .ofFeed ((meaningOn store hole p).feed.mapped store f)
  | .constraint p cs =>
      let test := fun v => .ok (cs.all (·.holds v))
      (meaningOn store hole p).sieve (verdictOn store test fun h => .failed (.unknownHandle h))
        (verdictOn store test fun _ => .nothing)
  | .recursive p morphism maxDepth depthNames bindings =>
      .ofFeed ((meaningOn store hole p).feed.closure bindings maxDepth
        (Closure.tagsAt store depthNames)
        fun frontier => (meaningOn store (.level frontier) morphism).feed.delivered)

def meaningOfAll (store : QuadStore) (hole : Meaning) : List Plan → List Meaning
  | [] => []
  | p :: ps => meaningOn store hole p :: meaningOfAll store hole ps

def meaningOfOption (store : QuadStore) (hole : Meaning) : Option Plan → Option Meaning
  | none => none
  | some p => some (meaningOn store hole p)

end

def meaning (store : QuadStore) (p : Plan) : Meaning :=
  p.meaningOn store (.leaf [] fun _ => false)

end Plan

theorem Roles.Realizes.ofScanner {S : Scanner} {F : Feed} (hs : S.Shows F S.fresh) :
    (Roles.ofScanner S).Realizes (.ofFeed F) :=
  ⟨hs, Index.ready_recorded hs⟩

theorem Roles.Realizes.paged {R : Roles} {M : Meaning} (hR : R.Realizes M) (n : Nat)
    {S : Scanner} {F : Feed} (hs : S.Shows F S.fresh) :
    Roles.Realizes ⟨S, if n = 0 then R.index else S.recorded⟩ (M.paged n F) := by
  unfold Meaning.paged
  by_cases hn : n = 0
  · simp only [hn, if_true]
    exact ⟨hs, hR.ready⟩
  · simp only [hn, if_false]
    exact ⟨hs, Index.ready_recorded hs⟩

namespace Plan

mutual

/-- The cursors of a plan realize its meaning. -/
theorem realizes_on (store : QuadStore) {hole : Roles} {H : Meaning} (hH : hole.Realizes H) :
    ∀ p : Plan, (p.rolesOn store hole).Realizes (p.meaningOn store H)
  | .fixed handles => Roles.realizes_leaf handles.toList handles.contains
  | .null => Roles.realizes_leaf [] fun _ => false
  | .all => Roles.realizes_leaf store.nodes store.containsNode
  | .input => hH
  | .and operands primary => .join (realizes_all store hH operands) (driver operands primary)
  | .or operands => .union (realizes_all store hH operands)
  | .not forbidden whole => (realizes_on store hH whole).without (realizes_on store hH forbidden)
  | .unique p => .ofScanner (realizes_on store hH p).shows.firsts
  | .save p names => (realizes_on store hH p).naming names
  | .limit p n =>
      have hp := realizes_on store hH p
      hp.paged n (hp.shows.limit 0)
  | .skip p n =>
      have hp := realizes_on store hH p
      hp.paged n (hp.shows.skip n)
  | .sort p =>
      have hp := realizes_on store hH p
      ⟨hp.shows.sorted store, hp.ready⟩
  | .step source fromEnd toEnd via names labels =>
      (realizes_on store hH source).step
        ⟨rfl, OptionalState.ready_fresh (realizes_option store hH via),
          OptionalState.ready_fresh (realizes_option store hH labels)⟩
  | .filter p test => (realizes_on store hH p).testing store test
  | .map p f => .ofScanner ((realizes_on store hH p).shows.mapped store f)
  | .constraint p cs => (realizes_on store hH p).testing store _
  | .recursive p morphism maxDepth depthNames bindings => by
      refine .ofScanner ((realizes_on store hH p).shows.closure fun frontier => ?_)
      have hlevel := realizes_on store ((Roles.realizes_leaf frontier.inputs.toList
        frontier.inputs.contains).naming [baseName]) morphism
      exact hlevel.shows.record fun _ => none

theorem realizes_all (store : QuadStore) {hole : Roles} {H : Meaning} (hH : hole.Realizes H) :
    ∀ ps : List Plan,
      List.Forall₂ Roles.Realizes (rolesOfAll store hole ps) (meaningOfAll store H ps)
  | [] => .nil
  | p :: ps => .cons (realizes_on store hH p) (realizes_all store hH ps)

theorem realizes_option (store : QuadStore) {hole : Roles} {H : Meaning} (hH : hole.Realizes H) :
    ∀ p : Option Plan,
      Option.Rel Roles.Realizes (rolesOfOption store hole p) (meaningOfOption store H p)
  | none => .none
  | some p => .some (realizes_on store hH p)

end

theorem realizes (store : QuadStore) (p : Plan) : (p.roles store).Realizes (p.meaning store) :=
  realizes_on store (Roles.realizes_leaf [] fun _ => false) p

/-- What a drain reports is what the feed delivers. -/
theorem delivered_of_report {store : QuadStore} {p : Plan} {rows : List Row}
    (hrows : (p.roles store).scanner.report .never = (.ok rows, .never)) :
    (p.meaning store).feed.delivered = ⟨rows, none⟩ := by
  have hreport := (p.realizes store).shows.report
  rw [hrows] at hreport
  cases hd : (p.meaning store).feed.delivered with
  | mk rows error =>
      rw [hd] at hreport
      cases error with
      | some e => simp at hreport
      | none => simpa using hreport.symm

end Plan

end GraphQuery
