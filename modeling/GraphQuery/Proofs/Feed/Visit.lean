import GraphQuery.Proofs.Feed.Basic
import GraphQuery.Session

/-!
# What a visit delivers

A visit that nothing stops delivers the rows of a full drain, one for each binding set.
-/

namespace GraphQuery

def Row.results (r : Row) : List ResultRow :=
  r.sets.map fun t => ⟨r.handle, t.insert resultName r.handle⟩

def Delivered.results (d : Delivered) : List ResultRow :=
  d.rows.flatMap Row.results

namespace Scanner

open Session (keepRow)

variable {S : Scanner}

section

variable {d : Delivery} {s s' : S.State} {h : Handle} {rows : Nat} {x : List ResultRow}

theorem visitResult_full (hr : S.result s = some h)
    (hd : (!d.paths || d.isFull (rows + 1)) = true) :
    S.visitResult d keepRow s rows x .never =
      ⟨.goOn, rows + 1, ⟨h, (S.tags s).insert resultName h⟩ :: x, s, .never⟩ := by
  rw [visitResult]
  simp only [hr, keepRow, hd, Bool.false_eq_true, if_false, if_true]

theorem visitResult_found (hr : S.result s = some h)
    (hd : (!d.paths || d.isFull (rows + 1)) = false)
    (hn : S.nextPath s .never = ⟨.found (), s', .never⟩) :
    S.visitResult d keepRow s rows x .never =
      S.visitResult d keepRow s' (rows + 1)
        (⟨h, (S.tags s).insert resultName h⟩ :: x) .never := by
  rw [visitResult]
  simp only [hr, keepRow, hd, Bool.false_eq_true, if_false]
  split <;> simp_all

theorem visitResult_nothing (hr : S.result s = some h)
    (hd : (!d.paths || d.isFull (rows + 1)) = false)
    (hn : S.nextPath s .never = ⟨.nothing, s', .never⟩) :
    S.visitResult d keepRow s rows x .never =
      ⟨.goOn, rows + 1, ⟨h, (S.tags s).insert resultName h⟩ :: x, s', .never⟩ := by
  rw [visitResult]
  simp only [hr, keepRow, hd, Bool.false_eq_true, if_false]
  split <;> simp_all

end

theorem visitResult_offers {after : Nat → S.State → Prop} {sets : List Tags} {s : S.State}
    {h : Handle} (ho : S.Offers h none after sets s) (rows : Nat) (x : List ResultRow) :
    ∃ s', S.visitResult ⟨true, none⟩ keepRow s rows x .never =
        ⟨.goOn, rows + sets.length, (Row.results ⟨h, sets⟩).reverse ++ x, s', .never⟩ ∧
      after (sets.length - 1) s' := by
  induction sets generalizing s after rows x with
  | nil => exact ho.elim
  | cons t sets ih =>
      cases sets with
      | nil =>
          obtain ⟨hr, ht, ha, s', hn, ha'⟩ := ho
          exact ⟨s', by rw [visitResult_nothing hr rfl hn, ht]; rfl, ha'⟩
      | cons u sets =>
          obtain ⟨hr, ht, ha, s', hn, hu⟩ := ho
          obtain ⟨s'', hv, ha''⟩ := ih hu (rows + 1) (⟨h, t.insert resultName h⟩ :: x)
          refine ⟨s'', ?_, by simpa using ha''⟩
          rw [visitResult_found hr rfl hn, ht, hv]
          simp [Row.results]
          omega

theorem Shows.visitFrom {F : Feed} {s : S.State} (hs : S.Shows F s) (rows : Nat)
    (x : List ResultRow) :
    S.visitFrom ⟨true, none⟩ keepRow s rows x .never =
      ⟨match F.delivered.error with
        | some e => .error e
        | none => .ok (rows + F.delivered.results.length),
        F.delivered.results.reverse ++ x, .never⟩ := by
  induction F generalizing s rows x with
  | done =>
      obtain ⟨s', hn⟩ := hs
      rw [Scanner.visitFrom]
      simp only [Delivery.isFull, Option.any_none, Bool.false_eq_true, if_false]
      split <;> simp_all [Feed.drain, Delivered.results]
  | failed e =>
      obtain ⟨s', hn⟩ := hs
      rw [Scanner.visitFrom]
      simp only [Delivery.isFull, Option.any_none, Bool.false_eq_true, if_false]
      split <;> simp_all [Feed.drain, Delivered.results]
  | row h sets rest ih =>
      obtain ⟨s', hn, ho⟩ := hs
      obtain ⟨s'', hv, hrest⟩ := visitResult_offers ho rows x
      have hih := ih _ hrest (rows + sets.length) ((Row.results ⟨h, sets⟩).reverse ++ x)
      rw [Scanner.visitFrom]
      simp only [Delivery.isFull, Option.any_none, Bool.false_eq_true, if_false]
      split
      · simp_all
      · simp_all
      · have hd : (Feed.row h sets rest).delivered =
            ⟨⟨h, sets⟩ :: (rest (sets.length - 1)).delivered.rows,
              (rest (sets.length - 1)).delivered.error⟩ := rfl
        simp only [hn, hv, hih, hd, Delivered.results, List.flatMap_cons, List.length_append,
          List.reverse_append, List.append_assoc]
        rw [show (Row.results ⟨h, sets⟩).length = sets.length by simp [Row.results], Nat.add_assoc]

end Scanner

/-- What is delivered to someone who never turns. -/
def Feed.skim : Feed → Delivered
  | .done => ⟨[], none⟩
  | .failed e => ⟨[], some e⟩
  | .row h sets rest =>
      let d := (rest 0).skim
      { d with rows := ⟨h, sets.take 1⟩ :: d.rows }

theorem Scanner.Shows.skimFrom {S : Scanner} {F : Feed} {s : S.State} (hs : S.Shows F s)
    (rows : Nat) (x : List ResultRow) :
    S.visitFrom ⟨false, none⟩ Session.keepRow s rows x .never =
      ⟨match F.skim.error with
        | some e => .error e
        | none => .ok (rows + F.skim.results.length),
        F.skim.results.reverse ++ x, .never⟩ := by
  induction F generalizing s rows x with
  | done =>
      obtain ⟨s', hn⟩ := hs
      rw [Scanner.visitFrom]
      simp only [Delivery.isFull, Option.any_none, Bool.false_eq_true, if_false]
      split <;> simp_all [Feed.skim, Delivered.results]
  | failed e =>
      obtain ⟨s', hn⟩ := hs
      rw [Scanner.visitFrom]
      simp only [Delivery.isFull, Option.any_none, Bool.false_eq_true, if_false]
      split <;> simp_all [Feed.skim, Delivered.results]
  | row h sets rest ih =>
      obtain ⟨s', hn, ho⟩ := hs
      obtain ⟨hr, others, hsets⟩ := ho.shown
      have hv : S.visitResult ⟨false, none⟩ Session.keepRow s' rows x .never = _ :=
        Scanner.visitResult_full hr rfl
      have hih := ih 0 ho.start (rows + 1) (⟨h, (S.tags s').insert resultName h⟩ :: x)
      have hresults : (Feed.row h sets rest).skim.results =
          ⟨h, (S.tags s').insert resultName h⟩ :: (rest 0).skim.results := by
        simp [Feed.skim, Delivered.results, Row.results, hsets]
      rw [Scanner.visitFrom]
      simp only [Delivery.isFull, Option.any_none, Bool.false_eq_true, if_false]
      split
      · simp_all
      · simp_all
      · simp only [hn, hv, hih, hresults, List.length_cons, List.reverse_cons,
          List.append_assoc, List.singleton_append]
        rw [show (Feed.row h sets rest).skim.error = (rest 0).skim.error from rfl, Nat.add_assoc,
          Nat.add_comm 1]

def Delivered.collected (d : Delivered) : Except QueryError (List ResultRow) :=
  match d.error with
  | some e => .error e
  | none => .ok d.results

theorem Scanner.Shows.collected {S : Scanner} {F : Feed} (hs : S.Shows F S.fresh) :
    Session.rowsOf (S.visit ⟨true, none⟩ Session.keepRow [] .never) =
      (F.delivered.collected, .never) := by
  rw [Scanner.visit, hs.visitFrom, Session.rowsOf, Delivered.collected]
  cases F.delivered.error <;> simp [Except.map]

theorem Scanner.Shows.skimmed {S : Scanner} {F : Feed} (hs : S.Shows F S.fresh) :
    Session.rowsOf (S.visit ⟨false, none⟩ Session.keepRow [] .never) =
      (F.skim.collected, .never) := by
  rw [Scanner.visit, hs.skimFrom, Session.rowsOf, Delivered.collected]
  cases F.skim.error <;> simp [Except.map]

end GraphQuery
