import GraphQuery.Proofs.Interruption.Cursors

/-!
# Interrupted plans

Every plan is scanned and probed robustly, whatever its callbacks do. So an interrupted drain shows
a first part of what the uninterrupted drain shows, and it reports an error unless it has shown
everything.
-/

namespace GraphQuery

namespace Plan

variable {store : QuadStore}

mutual

/-- A plan is robust if what stands in its hole is. -/
theorem robust_on {hole : Roles} (hh : hole.Robust) : ∀ p : Plan, (p.rolesOn store hole).Robust
  | .fixed handles => Roles.robust_ofHandles handles
  | .null => Roles.robust_null
  | .all => Roles.robust_nodes store
  | .input => hh
  | .and operands primary => Roles.robust_join (robust_all hh operands) (driver operands primary)
  | .or operands => Roles.robust_union (robust_all hh operands)
  | .not forbidden whole => (robust_on hh whole).without (robust_on hh forbidden)
  | .unique p => Roles.robust_ofScanner (robust_on hh p).scanner.firsts
  | .save p names => (robust_on hh p).naming names
  | .limit p n => by
      have hp := robust_on hh p
      refine ⟨hp.scanner.limit n, ?_⟩
      show (if n = 0 then _ else _ : Index).Robust
      split
      · exact hp.index
      · exact (hp.scanner.limit n).recorded
  | .skip p n => by
      have hp := robust_on hh p
      refine ⟨hp.scanner.skip n, ?_⟩
      show (if n = 0 then _ else _ : Index).Robust
      split
      · exact hp.index
      · exact (hp.scanner.skip n).recorded
  | .sort p => ⟨(robust_on hh p).scanner.sorted store, (robust_on hh p).index⟩
  | .step source _ _ via _ labels =>
      (robust_on hh source).step ⟨robust_option hh via, robust_option hh labels⟩
  | .filter p test => (robust_on hh p).testing store test
  | .map p f => Roles.robust_ofScanner ((robust_on hh p).scanner.mapped store f)
  | .constraint p cs => (robust_on hh p).testing store fun v => .ok (cs.all (·.holds v))
  | .recursive p morphism _ _ _ =>
      Roles.robust_ofScanner ((robust_on hh p).scanner.closure fun _ hR => robust_on hR morphism)

theorem robust_all {hole : Roles} (hh : hole.Robust) :
    ∀ ps : List Plan, ∀ R ∈ rolesOfAll store hole ps, R.Robust
  | [], R, hR => by simp [rolesOfAll] at hR
  | p :: ps, R, hR => by
      rcases List.mem_cons.1 hR with rfl | hR
      · exact robust_on hh p
      · exact robust_all hh ps R hR

theorem robust_option {hole : Roles} (hh : hole.Robust) :
    ∀ p : Option Plan, ∀ I ∈ (rolesOfOption store hole p).map Roles.index, I.Robust
  | none, I, hI => by simp [rolesOfOption] at hI
  | some p, I, hI => by
      obtain rfl : (rolesOn store hole p).index = I := by simpa [rolesOfOption] using hI
      exact (robust_on hh p).index

end

theorem robust (store : QuadStore) (p : Plan) : (p.roles store).Robust :=
  robust_on Roles.robust_null p

/-- An interruption truncates what a drain delivers and is never silent: the binding sets delivered,
each with its handle, are a first part of those that the drain delivers when it is not interrupted;
and unless the scanner then reports an error, they are all of them, and uninterrupted it reports no
error either. -/
theorem drain_interrupted (store : QuadStore) (p : Plan) (t : Token) :
    let S := (p.roles store).scanner
    let cut := S.drain (fun _ => none) S.fresh t
    let full := S.drain (fun _ => none) S.fresh .never
    cut.items.flatMap Row.shown <+: full.items.flatMap Row.shown ∧
      (S.error cut.state = none → cut.items = full.items ∧ S.error full.state = none) := by
  intro S cut full
  have hS : S.Robust := (p.robust store).scanner
  have herror (t : Token) : S.error (S.drain (fun _ => none) S.fresh t).state =
      (S.drain (fun _ => none) S.fresh t).error := by
    rw [Cursor.error, S.status_drain rfl]
  refine ⟨hS.shown_drain_prefix _ _ t, fun hcut => ?_⟩
  have hcut : cut.complete.answer = .found cut.items := by
    rw [herror t] at hcut
    simp only [Run.complete, cut, hcut]
  rcases (hS.drain (fun _ => none) S.fresh).fails_or_agrees t with ⟨e, he⟩ | ⟨ha, _⟩
  · simp [he, cut] at hcut
  · obtain ⟨hitems, hnone⟩ := Run.of_complete (ha.symm.trans hcut)
    exact ⟨hitems.symm, (herror .never).trans hnone⟩

end Plan

end GraphQuery
