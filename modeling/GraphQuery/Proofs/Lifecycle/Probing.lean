import GraphQuery.Proofs.Lifecycle.Alternates
import GraphQuery.Proofs.Meaning

/-!
# Probing an index again

Joins, differences and steps keep one index for all their candidates, and often move it on while it
still has binding sets to show. Nothing of that is seen later: as long as an index has recorded no
error, the next probe comes to what it comes to on a fresh one.
-/

namespace GraphQuery

/-- A call that leaves the cursor open and that nothing interrupts. -/
def Call.Undisturbed {γ : Type} : Call γ → Prop
  | .advance _ t => t = .never
  | .nextPath t => t = .never
  | .close => False

namespace Index

/-- What a probe comes to: the answer, the error on record after it and, of a handle that is found,
the binding sets that turning to the end shows and the error that it ends with. -/
structure Sighting where
  answer : Answer Unit
  error : Option QueryError
  sets : List Tags
  ending : Option QueryError
deriving DecidableEq

/-- Probes for a handle and, if it is found, turns to the end. -/
def sight (I : Index) (h : Handle) (s : I.State) : Sighting :=
  let o := I.contains h s .never
  match o.answer with
  | .found u =>
      let r := I.alternates o.state o.token
      ⟨.found u, I.error o.state, r.items, r.error⟩
  | answer => ⟨answer, I.error o.state, [], none⟩

variable {I : Index} {reply : Handle → Reply} {s : I.State} {h : Handle}

/-! ## One probe -/

/-- An index that answers with a reply is seen to give it. -/
theorem Answers.sight {ready : I.State → Prop} {r : Reply} (ha : I.Answers ready h s r)
    (he : I.error s = none) :
    I.sight h s = ⟨r.answer, r.answer.error?, r.sets, if r.sets = [] then none else r.error⟩ := by
  obtain ⟨s', hc, -, hf⟩ := ha
  have herror : I.error s' = r.answer.error? := by
    have hrecorded := I.error_contains he h .never
    rwa [hc] at hrecorded
  unfold Index.sight
  rw [hc]
  obtain ⟨sets, error⟩ := r
  cases sets with
  | nil => cases error <;> exact congrArg (fun e => Sighting.mk _ e _ _) herror
  | cons t sets =>
      obtain ⟨s'', hturns, -⟩ := (hf rfl).alternates
      simp [Reply.answer, hturns, herror]

/-- Two ready states without an error are not told apart by a probe. -/
theorem Ready.sight_eq {u : I.State} (hs : I.Ready reply s) (hu : I.Ready reply u)
    (hserror : I.error s = none) (huerror : I.error u = none) (h : Handle) :
    I.sight h s = I.sight h u :=
  ((hs.answers h).sight hserror).trans ((hu.answers h).sight huerror).symm

/-! ## Any number of calls -/

theorem Ready.call {c : Call Handle} (hs : I.Ready reply s) (hc : c.Undisturbed)
    (he : I.error (I.device.call s c).state = none) :
    I.Ready reply (I.device.call s c).state := by
  cases c with
  | close => exact hc.elim
  | nextPath t =>
      obtain rfl : t = .never := hc
      obtain ⟨a, s', hn, ha⟩ := hs.endures
      change I.error (I.nextPath s .never).state = none at he
      show I.Ready reply (I.nextPath s .never).state
      rw [hn] at he ⊢
      refine ha ?_
      cases a with
      | failed e =>
          have hfailed : (I.nextPath s .never).answer = .failed e := by rw [hn]
          have herror := Cursor.error_of_failed hfailed
          rw [hn] at herror
          exact nomatch he.symm.trans herror
      | _ => rfl
  | advance h t =>
      obtain rfl : t = .never := hc
      obtain ⟨s', hprobe, hnothing, hfound⟩ := hs.answers h
      change I.error (I.contains h s .never).state = none at he
      show I.Ready reply (I.contains h s .never).state
      rw [hprobe] at he ⊢
      cases ha : (reply h).answer with
      | nothing => exact hnothing ha
      | found u => exact (hfound ha).start
      | failed e =>
          have hfailed : (I.contains h s .never).answer = .failed e := by rw [hprobe, ha]
          have herror := Guarded.error_of_failed hfailed
          change I.error (I.contains h s .never).state = some e at herror
          rw [hprobe] at herror
          exact nomatch he.symm.trans herror

/-- So do any number of them. An error would still be on record after the last. -/
theorem Ready.after (hs : I.Ready reply s) {past : List (Call Handle)}
    (hpast : ∀ c ∈ past, c.Undisturbed) (he : I.error (I.device.after s past) = none) :
    I.Ready reply (I.device.after s past) := by
  induction past generalizing s with
  | nil => exact hs
  | cons c past ih =>
      change I.error (I.device.after (I.device.call s c).state past) = none at he
      have hcall : I.error (I.device.call s c).state = none := by
        cases herror : I.error (I.device.call s c).state with
        | none => rfl
        | some e => exact nomatch he.symm.trans (Device.error_after herror past)
      exact ih (hs.call (hpast c (.head _)) hcall) (fun c hc => hpast c (.tail _ hc)) he

end Index

namespace Plan

/-- An index keeps no trace of what it has been asked. Whatever handles it has been probed for and
however far it has been turned after each, as long as it has recorded no error the next probe has the
answer that a fresh index gives, records the same error if any, and is followed by the same binding
sets in the same order. -/
theorem index_stays_fresh (store : QuadStore) (p : Plan) (past : List (Call Handle))
    (hpast : ∀ c ∈ past, c.Undisturbed) :
    let I := (p.roles store).index
    let s := I.device.after I.fresh past
    I.error s = none → ∀ h, I.sight h s = I.sight h I.fresh := by
  intro I s he h
  have hfresh : I.Ready (p.meaning store).reply I.fresh := (p.realizes store).ready
  exact (hfresh.after hpast he).sight_eq hfresh he rfl h

def overlapping : Plan :=
  .or [.fixed (.ofList [.ofNat 0, .ofNat 1]), .fixed (.ofList [.ofNat 1])]

/-- Probed for one handle and left there, then probed for the other and turned past its end. -/
theorem overlapping_stays_fresh :
    let I := (overlapping.roles MemoryStore.empty.toStore).index
    let past : List (Call Handle) :=
      [.advance (.ofNat 1) .never, .advance (.ofNat 0) .never, .nextPath .never]
    I.sight (.ofNat 1) (I.device.after I.fresh past) = I.sight (.ofNat 1) I.fresh :=
  index_stays_fresh MemoryStore.empty.toStore overlapping
    [.advance (.ofNat 1) .never, .advance (.ofNat 0) .never, .nextPath .never]
    (by simp [Call.Undisturbed]) rfl (.ofNat 1)

end Plan

end GraphQuery
