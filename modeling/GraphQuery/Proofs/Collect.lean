import GraphQuery.Proofs.Feed.Visit
import GraphQuery.Proofs.Optimize.Pass
import GraphQuery.Proofs.Optimize.Uninterrupted
import GraphQuery.Proofs.Path.Within
import Mathlib.Data.List.Count

/-!
# What a session collects

Without a limit a session collects one row for each binding set of each result of the prepared plan.
Passes keep what probes find, and scans and probes agree, so a simplified plan gives the same rows
in some order, unless the counts of merged skips wrap around.
-/

namespace GraphQuery

/-! ## Rows and binding sets -/

theorem count_results (rows : List Row) (x : ResultRow) :
    (rows.flatMap Row.results).count x =
      ((bindingsOf x.id rows).map fun t => t.insert resultName x.id).count x.tags := by
  induction rows with
  | nil => rfl
  | cons r rows ih =>
      rw [List.flatMap_cons, List.count_append, ih, bindingsOf_cons, List.map_append,
        List.count_append]
      congr 1
      by_cases hr : r.handle = x.id
      · have hinj : Function.Injective (ResultRow.mk x.id) := fun _ _ h => (ResultRow.mk.inj h).2
        have hcount := List.count_map_of_injective
          (r.sets.map fun t => t.insert resultName x.id) _ hinj x.tags
        rw [List.map_map] at hcount
        rw [if_pos hr, ← hcount, Row.results, hr]
        rfl
      · rw [if_neg hr]
        refine List.count_eq_zero.2 fun hx => hr ?_
        obtain ⟨t, -, rfl⟩ := List.mem_map.1 hx
        rfl

theorem results_perm {rows rows' : List Row}
    (h : ∀ x, (bindingsOf x rows).Perm (bindingsOf x rows')) :
    (rows.flatMap Row.results).Perm (rows'.flatMap Row.results) := by
  refine List.perm_iff_count.2 fun x => ?_
  rw [count_results, count_results]
  exact ((h x.id).map _).count_eq _

namespace Session

variable {s : Session}

theorem prepare_never (s : Session) (path : Path) : (s.prepare path .never).2 = .never := by
  unfold prepare
  split
  · exact Plan.passesLeft_never ..
  · rfl

theorem prepare_eq {path : Path} {prepared : Except QueryError Plan}
    (hplan : (s.prepare path .never).1 = prepared) :
    s.prepare path .never = (prepared, .never) :=
  Prod.ext hplan (prepare_never s path)

theorem effectiveLimit_none (hlimit : s.config.defaultLimit = none) :
    s.effectiveLimit none = none := by
  rw [effectiveLimit, hlimit]
  rfl

/-- What is collected without a limit, if every binding set is a row. -/
theorem collect_eq {path : Path} {plan : Plan} (hpaths : s.config.includePaths = true)
    (hlimit : s.config.defaultLimit = none) (hplan : (s.prepare path .never).1 = .ok plan) :
    s.collect path none .never = ((plan.meaning s.store).feed.delivered.collected, .never) := by
  rw [collect, forEach, run, prepare_eq hplan, hpaths, effectiveLimit_none hlimit]
  exact (plan.realizes s.store).shows.collected

theorem collected_tabular {store : QuadStore} (hs : store.Coherent) {p : Plan}
    (hp : p.Tabular store) :
    (p.meaning store).feed.delivered.collected =
      .ok ((p.table store).rows.flatMap Row.results) := by
  rw [hp.meaning_eq hs, Table.meaning, Feed.delivered_ofRows]
  rfl

theorem collected_table {store : QuadStore} (hs : store.Coherent) {p : Plan}
    (hp : p.Within store.unlimited) :
    (p.meaning store).feed.delivered.collected =
      .ok ((p.table store).rows.flatMap Row.results) :=
  collected_tabular hs (Plan.tabular_of_unlimited hp)

/-- If plans are simplified, the skips in the plan of the path can be merged. -/
def MergesSkips (s : Session) (path : Path) : Prop :=
  s.config.optimize = true → (path.compile s.store s.config.bindings).SkipsFit

def oneNumber : MemoryStore :=
  (MemoryStore.empty.addValue (.int 1)).2

end Session

end GraphQuery
