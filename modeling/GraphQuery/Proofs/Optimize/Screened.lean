import GraphQuery.Proofs.Closure.Finite
import GraphQuery.Proofs.Lifecycle.Probing
import GraphQuery.Proofs.Optimize.Uninterrupted
import GraphQuery.Proofs.Table.Basic

/-!
# Constraints tested ahead

A pass merges stacked constraints and tests literal handles at once, unless one of them does not
resolve. Either way the meaning of the plan stays what it was, on every store: the same rows in the
same order, the same failure on the first handle that does not resolve, and the same replies.
-/

namespace GraphQuery

def Answer.both : Answer Unit → Answer Unit → Answer Unit
  | .found _, w => w
  | v, _ => v

variable {store : QuadStore}

/-! ## Sieves on top of each other -/

theorem Feed.sieve_row (v : Handle → Answer Unit) (h : Handle) (sets : List Tags)
    (rest : Nat → Feed) :
    (Feed.row h sets rest).sieve (.plain v) () =
      match v h with
      | .found _ => .row h sets fun k => (rest k).sieve (.plain v) ()
      | .nothing => (rest 0).sieve (.plain v) ()
      | .failed e => .failed e := by
  rw [Feed.sieve, Feed.sift]
  cases hv : v h <;> simp only [hv]

theorem Feed.sieve_sieve (v w : Handle → Answer Unit) (F : Feed) :
    (F.sieve (.plain v) ()).sieve (.plain w) () =
      F.sieve (.plain fun h => (v h).both (w h)) () := by
  induction F with
  | done => rfl
  | failed e => rfl
  | row h sets rest ih =>
      rw [Feed.sieve_row, Feed.sieve_row]
      cases hv : v h with
      | nothing => exact ih 0
      | failed e => rfl
      | found u =>
          dsimp only [Answer.both]
          rw [Feed.sieve_row]
          cases hw : w h with
          | nothing => exact ih 0
          | failed e => rfl
          | found u => exact congrArg (Feed.row h sets) (funext ih)

theorem Reply.sieve_sieve (v w : Handle → Answer Unit) (reply : Handle → Reply) :
    Reply.sieve w (Reply.sieve v reply) = Reply.sieve (fun h => (w h).both (v h)) reply := by
  funext h
  unfold Reply.sieve
  cases hw : w h <;> simp [hw, Answer.both]

theorem Meaning.sieve_sieve (M : Meaning) (v v' w w' : Handle → Answer Unit) :
    (M.sieve v v').sieve w w' =
      M.sieve (fun h => (v h).both (w h)) fun h => (w' h).both (v' h) :=
  congrArg₂ Meaning.mk (M.feed.sieve_sieve v w) (Reply.sieve_sieve v' w' M.reply)

/-! ## Verdicts of constraints -/

abbrev screen (store : QuadStore) (cs : List Constraint) (unknown : Handle → Answer Unit) :
    Handle → Answer Unit :=
  verdictOn store (fun v => .ok (cs.all (·.holds v))) unknown

def Meaning.screened (M : Meaning) (store : QuadStore) (cs : List Constraint) : Meaning :=
  M.sieve (screen store cs fun h => .failed (.unknownHandle h)) (screen store cs fun _ => .nothing)

section Screen

variable {unknown : Handle → Answer Unit} {cs cs' : List Constraint} {h : Handle}

theorem screen_of_isSome (hh : (store.resolve h).isSome) :
    screen store cs unknown h = if Plan.passes store cs h then .found () else .nothing := by
  obtain ⟨v, hv⟩ := Option.isSome_iff_exists.1 hh
  simp only [screen, verdictOn, Plan.passes, hv, Option.any_some]
  cases cs.all (·.holds v) <;> rfl

theorem screen_of_none (hh : store.resolve h = none) :
    screen store cs unknown h = unknown h := by
  simp only [screen, verdictOn, hh]

theorem Plan.passes_append :
    Plan.passes store (cs ++ cs') h = (Plan.passes store cs h && Plan.passes store cs' h) := by
  unfold Plan.passes
  cases store.resolve h <;> simp

theorem screen_append (hunknown : ∀ h, unknown h ≠ .found ()) :
    screen store (cs ++ cs') unknown h =
      (screen store cs unknown h).both (screen store cs' unknown h) := by
  cases hh : store.resolve h with
  | none =>
      have hne := hunknown h
      simp only [screen_of_none hh]
      cases hu : unknown h with
      | found u => exact (hne hu).elim
      | _ => rfl
  | some v =>
      have hsome : (store.resolve h).isSome := by rw [hh]; rfl
      simp only [screen_of_isSome hsome, Plan.passes_append]
      cases Plan.passes store cs h <;> cases Plan.passes store cs' h <;> rfl

/-- The order of constraints makes no difference. -/
theorem screen_append_comm :
    screen store (cs ++ cs') unknown = screen store (cs' ++ cs) unknown := by
  unfold screen
  congr 1
  funext v
  rw [List.all_append, List.all_append, Bool.and_comm]

end Screen

/-- Constraints on top of others are all of them, the lower ones first. -/
theorem Meaning.screened_screened (M : Meaning) (store : QuadStore) (cs cs' : List Constraint) :
    (M.screened store cs).screened store cs' = M.screened store (cs ++ cs') := by
  unfold screened
  rw [sieve_sieve]
  congr 1
  · funext h
    exact (screen_append (by simp)).symm
  · funext h
    rw [← screen_append (by simp), screen_append_comm]

/-! ## Literal handles -/

theorem Feed.screened_ofRows {cs : List Constraint} {handles : List Handle}
    {unknown : Handle → Answer Unit} (hh : ∀ h ∈ handles, (store.resolve h).isSome) :
    (Feed.ofRows (handles.map .bare)).sieve (.plain (screen store cs unknown)) () =
      .ofRows ((handles.filter (Plan.passes store cs)).map .bare) := by
  have hverdict : ∀ r ∈ handles.map Row.bare, screen store cs unknown r.handle =
      Table.verdict (Plan.passes store cs) r.handle := by
    intro r hr
    obtain ⟨h, hmem, rfl⟩ := List.mem_map.1 hr
    exact screen_of_isSome (hh h hmem)
  rw [Table.sieve_ofRows hverdict, List.filter_map]
  rfl

theorem Reply.screened_ofMem {cs : List Constraint} {mem : Handle → Bool} :
    Reply.sieve (screen store cs fun _ => .nothing) (Reply.ofMem mem) =
      Reply.ofMem fun h => Plan.passes store cs h && mem h := by
  funext h
  unfold Reply.sieve
  cases hh : store.resolve h with
  | none =>
      rw [screen_of_none hh]
      simp [Reply.ofMem, Plan.passes, hh]
  | some v =>
      rw [screen_of_isSome (by rw [hh]; rfl)]
      cases hp : Plan.passes store cs h <;> simp [Reply.ofMem, hp]

/-- Handles that all resolve are tested ahead. -/
theorem Meaning.screened_leaf {cs : List Constraint} {handles : HandleList}
    (hh : ∀ h ∈ handles.toList, (store.resolve h).isSome) :
    (Meaning.leaf handles.toList handles.contains).screened store cs =
      let kept := handles.filter (Plan.passes store cs)
      .leaf kept.toList kept.contains := by
  have hcontains : (handles.filter (Plan.passes store cs)).contains =
      fun h => Plan.passes store cs h && handles.contains h := by
    funext h
    rw [Bool.eq_iff_iff]
    simp [HandleList.contains, and_comm]
  unfold screened sieve leaf
  simp only [Feed.screened_ofRows hh, Reply.screened_ofMem, hcontains, HandleList.toList_filter]

/-- What a drain of constrained literal handles delivers: those that pass, up to the first one that
does not resolve, and a failure on that one. -/
theorem Feed.delivered_screened (store : QuadStore) (cs : List Constraint) (handles : List Handle) :
    ((Feed.ofRows (handles.map .bare)).sieve
        (.plain (screen store cs fun h => .failed (.unknownHandle h))) ()).delivered =
      ⟨((handles.takeWhile fun h => (store.resolve h).isSome).filter
          (Plan.passes store cs)).map .bare,
        (handles.find? fun h => (store.resolve h).isNone).map .unknownHandle⟩ := by
  induction handles with
  | nil => rfl
  | cons h rest ih =>
      show ((Feed.row h [.empty] _).sieve _ ()).delivered = _
      rw [Feed.sieve_row]
      cases hh : store.resolve h with
      | none =>
          rw [screen_of_none hh, List.takeWhile_cons_of_neg (by simp [hh]),
            List.find?_cons_of_pos (by simp [hh])]
          rfl
      | some v =>
          rw [screen_of_isSome (by rw [hh]; rfl), List.takeWhile_cons_of_pos (by simp [hh]),
            List.find?_cons_of_neg (by simp [hh])]
          cases hp : Plan.passes store cs h with
          | false =>
              rw [List.filter_cons_of_neg (by simp [hp])]
              exact ih
          | true =>
              rw [List.filter_cons_of_pos hp, List.map_cons]
              exact congrArg (fun d : Delivered => { d with rows := .bare h :: d.rows }) ih

namespace Plan

/-! ## One pass -/

theorem simplifyConstraint_fixed (cs : List Constraint) (handles : HandleList) (changed : Bool) :
    simplifyConstraint store cs (.fixed handles, changed) =
      if handles.toList.all fun h => (store.resolve h).isSome then
        (.fixed (handles.filter (passes store cs)), true)
      else (.constraint (.fixed handles) cs, changed) :=
  rfl

/-- The rule for constraints keeps the meaning, of whatever plan they stand on. -/
theorem meaning_simplifyConstraint (store : QuadStore) (cs : List Constraint) (x : Simplified) :
    (simplifyConstraint store cs x).1.meaning store = (x.1.meaning store).screened store cs := by
  obtain ⟨p, changed⟩ := x
  cases p with
  | constraint p inner =>
      exact ((p.meaning store).screened_screened store inner cs).symm
  | fixed handles =>
      rw [simplifyConstraint_fixed]
      split
      next hall => exact (Meaning.screened_leaf (List.all_eq_true.1 hall)).symm
      next => rfl
  | _ => rfl

inductive Screened : Plan → Prop
  | fixed (handles : HandleList) : Screened (.fixed handles)
  | null : Screened .null
  | constraint {p : Plan} (cs : List Constraint) : Screened p → Screened (.constraint p cs)

theorem Screened.simplifyConstraint {x : Simplified} (hx : x.1.Screened) (cs : List Constraint) :
    (simplifyConstraint store cs x).1.Screened := by
  obtain ⟨p, changed⟩ := x
  cases hx with
  | fixed handles =>
      rw [simplifyConstraint_fixed]
      split
      · exact .fixed _
      · exact .constraint cs (.fixed handles)
  | null => exact .constraint cs .null
  | constraint inner hp => exact .constraint _ hp

theorem pass_constraint (store : QuadStore) (ordered : Bool) (p : Plan) (cs : List Constraint) :
    pass store ordered (.constraint p cs) = simplifyConstraint store cs (pass store ordered p) :=
  rfl

theorem meaning_fixed_of_isEmpty {handles : HandleList} (hh : handles.isEmpty = true) :
    (Plan.fixed handles).meaning store = Plan.null.meaning store := by
  have hnil : handles.toList = [] := List.isEmpty_iff.1 hh
  have hcontains : handles.contains = fun _ => false := by
    funext h
    simp [HandleList.contains, hnil]
  show Meaning.leaf handles.toList handles.contains = .leaf [] fun _ => false
  rw [hnil, hcontains]

theorem Screened.pass {p : Plan} (hp : p.Screened) (store : QuadStore) (ordered : Bool) :
    (pass store ordered p).1.Screened ∧
      (pass store ordered p).1.meaning store = p.meaning store := by
  induction hp with
  | fixed handles =>
      show (if handles.isEmpty then (Plan.null, true) else (Plan.fixed handles, false)).1.Screened ∧
        (if handles.isEmpty then (Plan.null, true) else (Plan.fixed handles, false)).1.meaning _ = _
      split
      next hempty => exact ⟨.null, (meaning_fixed_of_isEmpty hempty).symm⟩
      next => exact ⟨.fixed handles, rfl⟩
  | null => exact ⟨.null, rfl⟩
  | constraint cs hp ih =>
      rw [pass_constraint, meaning_simplifyConstraint, ih.2]
      exact ⟨ih.1.simplifyConstraint cs, rfl⟩

/-! ## Any number of passes -/

def passed (store : QuadStore) (orders : List Bool) (p : Plan) : Plan :=
  orders.foldl (fun p ordered => (pass store ordered p).1) p

theorem Screened.meaning_passed {p : Plan} (hp : p.Screened) (store : QuadStore)
    (orders : List Bool) : (p.passed store orders).meaning store = p.meaning store := by
  induction orders generalizing p with
  | nil => rfl
  | cons ordered orders ih =>
      obtain ⟨hpass, hmeaning⟩ := hp.pass store ordered
      exact (ih hpass).trans hmeaning

def constrained (p : Plan) (stack : List (List Constraint)) : Plan :=
  stack.foldl .constraint p

theorem Screened.constrained {p : Plan} (hp : p.Screened) (stack : List (List Constraint)) :
    (p.constrained stack).Screened := by
  induction stack generalizing p with
  | nil => exact hp
  | cons cs stack ih => exact ih (.constraint cs hp)

theorem meaning_constrained (p : Plan) (cs : List Constraint) (stack : List (List Constraint)) :
    (p.constrained (cs :: stack)).meaning store =
      (p.meaning store).screened store (cs :: stack).flatten := by
  rw [List.flatten_cons]
  induction stack generalizing p cs with
  | nil => rw [List.flatten_nil, List.append_nil]; rfl
  | cons cs' stack ih =>
      show ((Plan.constraint p cs).constrained (cs' :: stack)).meaning store = _
      rw [ih, List.flatten_cons]
      exact (p.meaning store).screened_screened store cs (cs' ++ stack.flatten)

end Plan

/-! ## Drains and probes -/

/-- Probes that do not fail leave the index ready and without an error. -/
theorem Index.Ready.after_probes {I : Index} {reply : Handle → Reply} {s : I.State}
    (hs : I.Ready reply s) (he : I.error s = none) (hr : ∀ h, (reply h).answer.error? = none)
    (probes : List Handle) :
    let s' := I.device.after s (probes.map (.advance · .never))
    I.Ready reply s' ∧ I.error s' = none := by
  induction probes generalizing s with
  | nil => exact ⟨hs, he⟩
  | cons h probes ih =>
      have herror : I.error (I.device.call s (.advance h .never)).state = none := by
        obtain ⟨s', hc, -⟩ := hs.answers h
        have hrecorded := I.error_contains he h .never
        rw [hc] at hrecorded
        show I.error (I.contains h s .never).state = none
        rw [hc, hrecorded]
        exact hr h
      exact ih (hs.call rfl herror) herror

namespace Plan

/-- What a probe comes to after these others, on an index that was fresh before them. -/
def sightAfter (store : QuadStore) (p : Plan) (probes : List Handle) (h : Handle) :
    Index.Sighting :=
  let I := (p.roles store).index
  I.sight h (I.device.after I.fresh (probes.map (.advance · .never)))

theorem sightAfter_eq {p : Plan} {reply : Handle → Reply} (hp : (p.meaning store).reply = reply)
    (hr : ∀ h, (reply h).answer.error? = none) (probes : List Handle) (h : Handle) :
    p.sightAfter store probes h =
      ⟨(reply h).answer, none, (reply h).sets,
        if (reply h).sets = [] then none else (reply h).error⟩ := by
  subst hp
  obtain ⟨hready, herror⟩ := (p.realizes store).ready.after_probes rfl hr probes
  refine ((hready.answers h).sight herror).trans ?_
  rw [hr h]

/-- Constraints on literal handles are rewritten without a trace. After any number of passes a drain
delivers the same rows in the same order and ends with the same error: the literal handles that
satisfy all the constraints, up to the first one that does not resolve, and a failure on that one
if there is one. Whatever has been probed for before, a probe comes to the same: a literal handle
that satisfies all the constraints is found, and no probe fails. -/
theorem constrained_literals_unchanged (store : QuadStore) (handles : List Handle)
    (cs : List Constraint) (stack : List (List Constraint)) (orders : List Bool) :
    let literals := HandleList.ofList handles
    let accepted := passes store (cs :: stack).flatten
    let p := (Plan.fixed literals).constrained (cs :: stack)
    let q := p.passed store orders
    (q.roles store).scanner.drained.delivered = (p.roles store).scanner.drained.delivered ∧
      (p.roles store).scanner.drained.delivered =
        ⟨((literals.toList.takeWhile fun h => (store.resolve h).isSome).filter accepted).map .bare,
          (literals.toList.find? fun h => (store.resolve h).isNone).map .unknownHandle⟩ ∧
      ∀ probes h, q.sightAfter store probes h = p.sightAfter store probes h ∧
        p.sightAfter store probes h =
          if accepted h && literals.contains h then ⟨.found (), none, [.empty], none⟩
          else ⟨.nothing, none, [], none⟩ := by
  intro literals accepted p q
  have hscreened : p.Screened := (Screened.fixed literals).constrained _
  have hq : q.meaning store = p.meaning store := hscreened.meaning_passed store orders
  have hp : p.meaning store = (Meaning.leaf literals.toList literals.contains).screened store
      (cs :: stack).flatten := meaning_constrained _ cs stack
  have hdrained := (p.realizes store).shows.drained.1
  have hdrained' := (q.realizes store).shows.drained.1
  have hreply : (p.meaning store).reply =
      Reply.ofMem fun h => accepted h && literals.contains h := by
    rw [hp]
    exact Reply.screened_ofMem
  have hfound : ∀ h, (Reply.ofMem (fun h => accepted h && literals.contains h) h).answer.error? =
      none := by
    intro h
    unfold Reply.ofMem
    split <;> rfl
  refine ⟨?_, ?_, fun probes h => ⟨?_, ?_⟩⟩
  · rw [hdrained, hdrained', hq]
  · rw [hdrained, hp]
    exact Feed.delivered_screened store _ literals.toList
  · rw [sightAfter_eq hreply hfound, sightAfter_eq (hq ▸ hreply) hfound]
  · rw [sightAfter_eq hreply hfound]
    unfold Reply.ofMem
    split <;> rfl

end Plan

end GraphQuery
