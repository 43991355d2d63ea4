import GraphQuery.Proofs.Collect
import GraphQuery.Proofs.Narrowing.Limit
import GraphQuery.Proofs.Paging.Arranged
import GraphQuery.Proofs.Turning.Query
import GraphQuery.Proofs.Value.Order
import Mathlib.Data.List.Dedup

/-!
# Pages of ordered values

Paging through the distinct results of a query in ascending order gives the same values whether or
not the plan is simplified, unless the counts of merged skips wrap around: a part of the list of all
of them.
-/

namespace GraphQuery

/-! ## Parts of a list -/

/-- The entries after the first `skipped`; of these the first `shown`, or all if `shown` is zero. -/
def page {α : Type} (skipped shown : Nat) (entries : List α) : List α :=
  if shown = 0 then entries.drop skipped else (entries.drop skipped).take shown

theorem page_nil {α : Type} (skipped shown : Nat) : page skipped shown ([] : List α) = [] := by
  simp [page]

namespace Table

variable {store : QuadStore}

end Table

namespace Plan

variable {store : QuadStore}

variable {T : Table} {n : Nat} {p q : Plan}

theorem Pages.tabular (h : Pages store T n p q) : q.Tabular store :=
  tabular_of_unlimited (Within.mono store.mapless_le q h.within)

theorem Pages.safeRows (hs : store.Coherent) (h : Pages store T n p q) :
    SafeRows (· ∈ store.nodes) T.rows :=
  h.table ▸ h.tabular.safeRows hs

/-- Someone who never turns is shown the page, each result with its first binding set. -/
theorem Pages.skim (hs : store.Coherent) (h : Pages store T n p q) :
    (p.meaning store).feed.skim = ⟨(page 0 n T.rows).map fun r => r.upTo 0, none⟩ := by
  have hne : ∀ r ∈ T.rows, r.sets ≠ [] := fun r hr => (h.safeRows hs r hr).2
  have hfeed : (q.meaning store).feed = .ofRows T.rows := by
    rw [h.tabular.meaning_eq hs, h.table]
    rfl
  have huniform := Feed.uniform_ofRows T.rows
  have hwhole : (q.meaning store).feed.skim = ⟨T.rows.map fun r => r.upTo 0, none⟩ := by
    rw [hfeed, huniform.skim_eq, Feed.delivered_ofRows]
  by_cases hn : n = 0
  · subst hn
    rcases h.shape with rfl | ⟨rfl, -⟩
    · show (Feed.limit 0 (q.meaning store).feed 0).skim = _
      rw [Feed.limit_zero, hwhole]
      rfl
    · exact hwhole
  · rcases h.shape with rfl | ⟨rfl, hnull⟩
    · show ((q.meaning store).feed.limit n 0).skim = _
      rw [hfeed, huniform.skim_limit hn (by rwa [Feed.delivered_ofRows]) (by rw [Feed.delivered_ofRows]),
        Feed.delivered_ofRows, page, if_neg hn]
      rfl
    · obtain rfl : p = .null := hnull.resolve_left hn
      have hrows : T.rows = [] := by
        rw [← h.table]
        rfl
      rw [hwhole, hrows, page_nil]

end Plan

namespace Path

end Path

namespace Session

variable {s : Session} {path : Path}

/-- What is collected of a plan that shows its table. -/
theorem collect_table {plan : Plan} (hs : s.store.Coherent)
    (hlimit : s.config.defaultLimit = none) (hplan : (s.prepare path .never).1 = .ok plan)
    (htab : plan.Tabular s.store) :
    s.collect path none .never =
      (.ok ((plan.table s.store).rows.flatMap fun r =>
        (if s.config.includePaths then r else r.upTo 0).results), .never) := by
  cases hpaths : s.config.includePaths with
  | true => rw [collect_eq hpaths hlimit hplan, collected_tabular hs htab]; rfl
  | false =>
      rw [collect_firsts hpaths hlimit hplan, htab.meaning_eq hs, Table.meaning,
        (Feed.uniform_ofRows _).skim_eq, Feed.delivered_ofRows, Delivered.collected]
      simp [Delivered.results, List.flatMap_map]

end Session

end GraphQuery
