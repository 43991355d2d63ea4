import GraphQuery.Proofs.Coherence
import GraphQuery.Proofs.Safety.Feed

/-!
# Replies without failures

Where no operand's reply carries a failure, neither does the reply of the operator, and all that it
gathers on the way is found.
-/

namespace GraphQuery

def Faultless (reply : Handle → Reply) : Prop :=
  ∀ h, (reply h).error = none

theorem Reply.answer_ne_failed {r : Reply} (hr : r.error = none) (e : QueryError) :
    r.answer ≠ .failed e := by
  obtain ⟨sets, error⟩ := r
  obtain rfl : error = none := hr
  cases sets <;> simp [Reply.answer]

theorem Reply.complete_ne_failed {r : Reply} (hr : r.error = none) (e : QueryError) :
    r.complete ≠ .failed e := by
  obtain ⟨sets, error⟩ := r
  obtain rfl : error = none := hr
  cases sets <;> simp [Reply.complete]

theorem Answer.map_ne_failed {α β : Type} {a : Answer α} {f : α → β} {e : QueryError}
    (ha : a ≠ .failed e) : a.map f ≠ .failed e := by
  cases a <;> simp_all [Answer.map]

theorem faultless_sieve {verdict : Handle → Answer Unit} {reply : Handle → Reply}
    (hv : ∀ h e, verdict h ≠ .failed e) (hr : Faultless reply) :
    Faultless (Reply.sieve verdict reply) := by
  intro h
  unfold Reply.sieve
  cases ha : verdict h with
  | found u => exact hr h
  | nothing => rfl
  | failed e => exact (hv h e ha).elim

theorem faultless_reply {d : Delivered} (hd : d.error = none) : Faultless d.reply := by
  intro h
  rw [Delivered.reply, hd]
  rfl

theorem Reply.forbid_ne_failed {r : Reply} (hr : r.error = none) (e : QueryError) :
    r.forbid ≠ .failed e := by
  unfold Reply.forbid
  cases ha : r.answer with
  | found u => simp
  | nothing => simp
  | failed e => exact (Reply.answer_ne_failed hr e ha).elim

section Join

variable {replies : List (Handle → Reply)}

theorem faultless_replyAt (hr : ∀ reply ∈ replies, Faultless reply) (i : Nat) :
    Faultless (replyAt replies i) := by
  intro h
  unfold replyAt
  cases hi : replies[i]? with
  | none => rfl
  | some reply => exact hr reply (List.mem_of_getElem? hi) h

theorem consult_ne_failed (hr : ∀ reply ∈ replies, Faultless reply) (h : Handle)
    (order : List Nat) (e : QueryError) : consult replies h order ≠ .failed e := by
  induction order with
  | nil => simp [consult]
  | cons i order ih =>
      unfold consult
      cases ha : (replyAt replies i h).answer with
      | found u => exact ih
      | nothing => simp
      | failed e => exact (Reply.answer_ne_failed (faultless_replyAt hr i h) e ha).elim

theorem gathered_eq (hr : ∀ reply ∈ replies, Faultless reply) (h : Handle) :
    gathered h replies = .found (replies.map fun reply => (reply h).sets) := by
  induction replies with
  | nil => rfl
  | cons reply replies ih =>
      unfold gathered
      rw [hr reply (List.mem_cons_self ..) h, ih fun q hq => hr q (List.mem_cons_of_mem _ hq)]
      rfl

theorem faultless_join (hr : ∀ reply ∈ replies, Faultless reply) (first : Nat) :
    Faultless (Reply.join replies first) := by
  intro h
  unfold Reply.join
  rw [gathered_eq hr]
  cases ha : consult replies h (probeOrder replies.length first) with
  | found u => rfl
  | nothing => rfl
  | failed e => exact (consult_ne_failed hr h _ e ha).elim

theorem Feed.Holds.join {ok : Handle → Prop} {expected : QueryError → Prop} {F : Feed}
    (hF : F.Holds ok expected)
    (hc : ∀ h order e, consult replies h order = .failed e → expected e)
    (hg : ∀ h e, gathered h replies = .failed e → expected e) (position : Nat) :
    (F.join replies position).Holds ok expected := by
  refine hF.sift (joinedRow replies position) (fun h _ e _ => hc h _ e) ?_ ()
  intro a h m sets rest _ hh _ hrest
  unfold joinedRow
  cases ha : gathered h replies with
  | found others => exact ⟨hh, Combinations.all_ne_nil _, fun _ => hrest _⟩
  | nothing => trivial
  | failed e => exact hg h e ha

theorem Feed.Safe.join {ok : Handle → Prop} {F : Feed} (hF : F.Safe ok)
    (hr : ∀ reply ∈ replies, Faultless reply) (position : Nat) :
    (F.join replies position).Safe ok :=
  Feed.Holds.join hF (fun h order e => consult_ne_failed hr h order e)
    (fun h e he => by simp [gathered_eq hr] at he) position

theorem faultless_concat (hr : ∀ reply ∈ replies, Faultless reply) :
    Faultless (Reply.concat replies) := by
  intro h
  induction replies with
  | nil => rfl
  | cons reply replies ih =>
      have hh := hr reply (List.mem_cons_self ..) h
      show (Reply.append (reply h) (Reply.concat replies h)).error = none
      unfold Reply.append
      rw [hh]
      exact ih fun q hq => hr q (List.mem_cons_of_mem _ hq)

end Join

section Step

variable {D : QuadReplies} {T : Trail}

structure QuadReplies.Faultless (D : QuadReplies) : Prop where
  via : ∀ reply ∈ D.via, GraphQuery.Faultless reply
  labels : ∀ reply ∈ D.labels, GraphQuery.Faultless reply

theorem demanded_ne_failed {reply : Option (Handle → Reply)} (hr : ∀ r ∈ reply, Faultless r)
    (h : Handle) (e : QueryError) : demanded reply h ≠ .failed e := by
  cases reply with
  | none => simp [demanded]
  | some r => exact Answer.map_ne_failed (Reply.complete_ne_failed (hr r rfl h) e)

theorem QuadReplies.Faultless.bindings_ne_failed (hD : D.Faultless) (quad : Quad)
    (e : QueryError) : D.bindings quad ≠ .failed e := by
  unfold QuadReplies.bindings
  cases hv : demanded D.via quad.predicate with
  | nothing => simp
  | failed e => exact (demanded_ne_failed hD.via _ e hv).elim
  | found via =>
      refine Answer.map_ne_failed ?_
      unfold QuadReplies.labelBindings
      cases D.labels.isSome with
      | false => simp
      | true =>
          cases quad.label with
          | none => simp
          | some l => exact demanded_ne_failed hD.labels l e

theorem QuadReplies.Faultless.reached_ne_failed (hD : D.Faultless) (id : QuadId)
    (e : QueryError) : T.reached D id ≠ .failed e := by
  unfold Trail.reached
  cases T.store.quad id with
  | none => simp
  | some quad =>
      dsimp only
      cases quad.at T.toEnd with
      | none => simp
      | some target => exact Answer.map_ne_failed (hD.bindings_ne_failed quad e)

theorem Trail.mem_of_reached (hs : T.store.Coherent) {id : QuadId} {h : Handle}
    {sets : List (List Tags)} (hr : T.reached D id = .found (h, sets)) : h ∈ T.store.nodes := by
  unfold Trail.reached at hr
  cases hq : T.store.quad id with
  | none => simp [hq] at hr
  | some quad =>
      cases hd : quad.at T.toEnd with
      | none => simp [hq, hd] at hr
      | some target =>
          simp only [hq, hd] at hr
          cases hb : D.bindings quad with
          | nothing => simp [hb, Answer.map] at hr
          | failed e => simp [hb, Answer.map] at hr
          | found b =>
              simp only [hb, Answer.map, Answer.found.injEq, Prod.mk.injEq] at hr
              exact hr.1 ▸ hs.mem_of_at hq hd

theorem QuadReplies.Faultless.retraced_ne_failed (hD : D.Faultless) {reply : Handle → Reply}
    (hr : GraphQuery.Faultless reply) (quads : List QuadId) (e : QueryError) :
    T.retraced D reply quads ≠ .failed e := by
  induction quads with
  | nil => simp [Trail.retraced]
  | cons id quads ih =>
      unfold Trail.retraced
      cases (T.store.quad id).bind fun quad => (quad.at T.fromEnd).map (quad, ·) with
      | none => exact ih
      | some p =>
          dsimp only
          cases hc : Trail.cameFrom D reply p.1 p.2 with
          | nothing => exact ih
          | found sets => exact Answer.map_ne_failed ih
          | failed e =>
              unfold Trail.cameFrom at hc
              cases hb : D.bindings p.1 with
              | nothing => simp [hb] at hc
              | failed e => exact (hD.bindings_ne_failed p.1 e hb).elim
              | found sets =>
                  simp only [hb] at hc
                  exact (Answer.map_ne_failed (Reply.complete_ne_failed (hr p.2) e) hc).elim

theorem QuadReplies.Faultless.faultless_step (hD : D.Faultless) {reply : Handle → Reply}
    (hr : GraphQuery.Faultless reply) : GraphQuery.Faultless (Reply.step T D reply) := by
  intro h
  unfold Reply.step
  cases ha : T.retraced D reply (T.store.quadsWith T.toEnd h) with
  | found sets => rfl
  | nothing => rfl
  | failed e => exact (hD.retraced_ne_failed hr _ e ha).elim

end Step

end GraphQuery
