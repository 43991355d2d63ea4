import GraphQuery.Cursor.Group
import GraphQuery.Proofs.Feed.Basic
import Mathlib.Data.List.Forall2

/-!
# What groups of indexes reply

A call on a group acts on the index at one position and leaves the others alone. So a property of
the states of all indexes is carried through a run of calls position by position.
-/

namespace GraphQuery

def Index.Holds (I : Index) (reply : Handle → Reply) (h : Handle) (s : I.State) : Prop :=
  (reply h).answer = .found () ∧
    I.Offers h (reply h).error (fun _ => I.Ready reply) (reply h).sets s

def replyAt (replies : List (Handle → Reply)) (i : Nat) (h : Handle) : Reply :=
  (replies[i]?.map (· h)).getD .absent

/-- The answer to a probe at these positions, in this order, as long as each holds the handle. -/
def consult (replies : List (Handle → Reply)) (h : Handle) : List Nat → Answer Unit
  | [] => .found ()
  | i :: order =>
      match (replyAt replies i h).answer with
      | .found _ => consult replies h order
      | .nothing => .nothing
      | .failed e => .failed e

def gathered (h : Handle) : List (Handle → Reply) → Answer (List (List Tags))
  | [] => .found []
  | reply :: replies =>
      match (reply h).error with
      | some e => .failed e
      | none => (gathered h replies).map ((reply h).sets :: ·)

namespace GroupState

def Each : (Is : List Index) → (Nat → (I : Index) → I.State → Prop) → GroupState Is → Prop
  | [], _, _ => True
  | I :: Is, P, (s, g) => P 0 I s ∧ Each Is (fun i => P (i + 1)) g

variable {P Q : Nat → (I : Index) → I.State → Prop} {h : Handle}

theorem Each.mono : ∀ {Is : List Index} {P Q : Nat → (I : Index) → I.State → Prop}
    {g : GroupState Is}, (∀ i I s, P i I s → Q i I s) → Each Is P g → Each Is Q g
  | [], _, _, _, _, _ => trivial
  | I :: _, _, _, (s, _), hm, hg => ⟨hm 0 I s hg.1, hg.2.mono fun i => hm (i + 1)⟩

theorem each_fresh : ∀ {Is : List Index} {P : Nat → (I : Index) → I.State → Prop},
    (∀ i I, Is[i]? = some I → P i I I.fresh) → Each Is P (fresh Is)
  | [], _, _ => trivial
  | I :: _, _, hP => ⟨hP 0 I rfl, each_fresh fun i J hJ => hP (i + 1) J hJ⟩

theorem Each.at : ∀ {Is : List Index} {P : Nat → (I : Index) → I.State → Prop} {i : Nat}
    {g : GroupState Is}, i < Is.length → Each Is P g → ∃ I s, P i I s
  | [], _, _, _, hi, _ => absurd hi (Nat.not_lt_zero _)
  | I :: _, _, 0, (s, _), _, hg => ⟨I, s, hg.1⟩
  | _ :: Is, _, i + 1, (_, g), hi, hg =>
      @Each.at Is _ i g (Nat.lt_of_succ_lt_succ hi) hg.2

theorem Each.containsAt {R : (I : Index) → I.State → Prop} {a : Answer Unit} :
    ∀ {Is : List Index} {P : Nat → (I : Index) → I.State → Prop} {i : Nat} {g : GroupState Is},
      i < Is.length → Each Is P g →
      (∀ I s, P i I s → ∃ s', I.contains h s .never = ⟨a, s', .never⟩ ∧ R I s') →
      ∃ g', containsAt Is i h g .never = ⟨a, g', .never⟩ ∧
        Each Is (fun j => if j = i then R else P j) g'
  | [], _, _, _, hi, _, _ => absurd hi (Nat.not_lt_zero _)
  | I :: _, _, 0, (s, g), _, hg, hp => by
      obtain ⟨s', hc, hR⟩ := hp I s hg.1
      refine ⟨(s', g), by rw [GroupState.containsAt, hc]; rfl, hR, ?_⟩
      exact hg.2.mono fun i J u hu => hu
  | _ :: Is, _, i + 1, (s, g), hi, hg, hp => by
      obtain ⟨g', hc, hg'⟩ := hg.2.containsAt (Nat.lt_of_succ_lt_succ hi) hp
      refine ⟨(s, g'), by rw [GroupState.containsAt, hc]; rfl, hg.1, ?_⟩
      refine hg'.mono fun j J u hu => ?_
      by_cases hj : j = i
      · simpa [hj] using hu
      · simpa [hj] using hu

theorem Each.turnAt {R : (I : Index) → I.State → Prop} {a : Answer Unit} :
    ∀ {Is : List Index} {P : Nat → (I : Index) → I.State → Prop} {i : Nat} {g : GroupState Is},
      i < Is.length → Each Is P g →
      (∀ I s, P i I s → ∃ s', I.nextPath s .never = ⟨a, s', .never⟩ ∧ R I s') →
      ∃ g', turnAt Is i g .never = ⟨a, g', .never⟩ ∧
        Each Is (fun j => if j = i then R else P j) g'
  | [], _, _, _, hi, _, _ => absurd hi (Nat.not_lt_zero _)
  | I :: _, _, 0, (s, g), _, hg, hp => by
      obtain ⟨s', hc, hR⟩ := hp I s hg.1
      refine ⟨(s', g), by rw [GroupState.turnAt, hc]; rfl, hR, ?_⟩
      exact hg.2.mono fun i J u hu => hu
  | _ :: Is, _, i + 1, (s, g), hi, hg, hp => by
      obtain ⟨g', hc, hg'⟩ := hg.2.turnAt (Nat.lt_of_succ_lt_succ hi) hp
      refine ⟨(s, g'), by rw [GroupState.turnAt, hc]; rfl, hg.1, ?_⟩
      refine hg'.mono fun j J u hu => ?_
      by_cases hj : j = i
      · simpa [hj] using hu
      · simpa [hj] using hu

theorem Each.tagsAt {t : Tags} : ∀ {Is : List Index}
    {P : Nat → (I : Index) → I.State → Prop} {i : Nat} {g : GroupState Is},
    i < Is.length → Each Is P g → (∀ I s, P i I s → I.tags s = t) → tagsAt Is i g = t
  | [], _, _, _, hi, _, _ => absurd hi (Nat.not_lt_zero _)
  | I :: _, _, 0, (s, _), _, hg, hp => hp I s hg.1
  | _ :: Is, _, i + 1, (_, g), hi, hg, hp =>
      @Each.tagsAt _ Is _ i g (Nat.lt_of_succ_lt_succ hi) hg.2 hp

/-! ## Probing for one handle -/

def Stands (Is : List Index) (replies : List (Handle → Reply)) (h : Handle) (held : Nat → Prop) :
    GroupState Is → Prop :=
  Each Is fun i I s => I.Ready (replyAt replies i) s ∧ (held i → I.Holds (replyAt replies i) h s)

def Ready (Is : List Index) (replies : List (Handle → Reply)) : GroupState Is → Prop :=
  Each Is fun i I s => I.Ready (replyAt replies i) s

variable {Is : List Index} {replies : List (Handle → Reply)} {held held' : Nat → Prop}
  {g : GroupState Is}

theorem Stands.mono (hm : ∀ i, held' i → held i) (hg : Stands Is replies h held g) :
    Stands Is replies h held' g :=
  Each.mono (fun i _ _ hs => ⟨hs.1, fun hi => hs.2 (hm i hi)⟩) hg

theorem Ready.stands (hg : Ready Is replies g) (h : Handle) :
    Stands Is replies h (fun _ => False) g :=
  Each.mono (fun _ _ _ hs => ⟨hs, False.elim⟩) hg

theorem Ready.turnAt : ∀ {Is : List Index} {replies : List (Handle → Reply)} {g : GroupState Is}
    (i : Nat), Ready Is replies g → ∃ a g', GroupState.turnAt Is i g .never = ⟨a, g', .never⟩ ∧
      (a.error? = none → Ready Is replies g')
  | [], _, g, _, hg => ⟨.nothing, g, rfl, fun _ => hg⟩
  | I :: _, _, (s, g), 0, hg => by
      obtain ⟨a, s', hn, ha⟩ := Index.Ready.endures hg.1
      exact ⟨a, (s', g), by rw [GroupState.turnAt, hn]; rfl, fun hok => ⟨ha hok, hg.2⟩⟩
  | _ :: Is, [], (s, g), i + 1, hg => by
      obtain ⟨a, g', hn, ha⟩ := Ready.turnAt i (show Ready Is [] g from hg.2)
      exact ⟨a, (s, g'), by rw [GroupState.turnAt, hn]; rfl, fun hok => ⟨hg.1, ha hok⟩⟩
  | _ :: Is, _ :: replies, (s, g), i + 1, hg => by
      obtain ⟨a, g', hn, ha⟩ := Ready.turnAt i (show Ready Is replies g from hg.2)
      exact ⟨a, (s, g'), by rw [GroupState.turnAt, hn]; rfl, fun hok => ⟨hg.1, ha hok⟩⟩

theorem Stands.containsAt {i : Nat} (hi : i < Is.length) (hg : Stands Is replies h held g) :
    ∃ g', containsAt Is i h g .never = ⟨(replyAt replies i h).answer, g', .never⟩ ∧
      ((replyAt replies i h).answer = .found () →
        Stands Is replies h (fun j => j = i ∨ held j) g') ∧
      ((replyAt replies i h).answer = .nothing → Ready Is replies g') := by
  obtain ⟨g', hc, hg'⟩ := Each.containsAt hi hg fun I s hs => hs.1.answers h
  refine ⟨g', hc, fun ha => Each.mono (fun j I s hs => ?_) hg',
    fun ha => Each.mono (fun j I s hs => ?_) hg'⟩
  · by_cases hj : j = i
    · rw [if_pos hj] at hs
      subst hj
      exact ⟨(hs.2 ha).start, fun _ => ⟨ha, hs.2 ha⟩⟩
    · rw [if_neg hj] at hs
      exact ⟨hs.1, fun hh => hs.2 (hh.resolve_left hj)⟩
  · by_cases hj : j = i
    · rw [if_pos hj] at hs
      subst hj
      exact hs.1 ha
    · rw [if_neg hj] at hs
      exact hs.1

theorem Stands.containsAll {order : List Nat} (ho : ∀ i ∈ order, i < Is.length)
    (hg : Stands Is replies h held g) :
    ∃ g', containsAll Is h order g .never = ⟨consult replies h order, g', .never⟩ ∧
      (consult replies h order = .found () →
        Stands Is replies h (fun j => j ∈ order ∨ held j) g') ∧
      (consult replies h order = .nothing → Ready Is replies g') := by
  induction order generalizing g held with
  | nil => exact ⟨g, rfl, fun _ => hg.mono fun i hi => by simpa using hi, by simp [consult]⟩
  | cons i order ih =>
      obtain ⟨g₁, hc, hf, hn⟩ := hg.containsAt (ho i (List.mem_cons_self ..))
      unfold GroupState.containsAll consult
      rw [hc]
      cases ha : (replyAt replies i h).answer with
      | nothing => exact ⟨g₁, rfl, by simp, fun _ => hn ha⟩
      | failed e => exact ⟨g₁, rfl, by simp, by simp⟩
      | found u =>
          obtain ⟨g₂, hc₂, hf₂, hn₂⟩ := ih (fun j hj => ho j (List.mem_cons_of_mem _ hj)) (hf ha)
          refine ⟨g₂, hc₂, fun hh => (hf₂ hh).mono fun j hj => ?_, hn₂⟩
          simp only [List.mem_cons] at hj
          grind

theorem Stands.alternates : ∀ {Is : List Index} {replies : List (Handle → Reply)}
    {g : GroupState Is}, Is.length = replies.length →
    Stands Is replies h (fun i => i < Is.length) g →
    ∃ g', GroupState.alternates Is g .never = ⟨gathered h replies, g', .never⟩ ∧
      ((gathered h replies).error? = none → Ready Is replies g')
  | [], [], g, _, _ => ⟨g, rfl, fun _ => trivial⟩
  | [], _ :: _, _, hl, _ => by simp at hl
  | _ :: _, [], _, hl, _ => by simp at hl
  | I :: Is, reply :: replies, (s, g), hl, hg => by
      obtain ⟨s', hs, hr⟩ := (hg.1.2 (Nat.succ_pos _)).2.alternates
      change I.alternates s .never = ⟨(reply h).sets, (reply h).error, s', .never⟩ at hs
      change (reply h).error = none → I.Ready reply s' at hr
      have hg' : Stands Is replies h (fun i => i < Is.length) g :=
        Each.mono (fun i J u hu => ⟨hu.1, fun hi => hu.2 (Nat.succ_lt_succ hi)⟩) hg.2
      obtain ⟨g', hg₂, hr₂⟩ := Stands.alternates (by simpa using hl) hg'
      rw [GroupState.alternates, gathered, hs]
      cases he : (reply h).error with
      | some e => exact ⟨(s', g), rfl, by simp [Answer.error?]⟩
      | none =>
          refine ⟨(s', g'), ?_, fun hh => ⟨hr he, hr₂ ?_⟩⟩
          · simp only [Run.complete, Outcome.andThen, hg₂]
            rfl
          · revert hh
            cases gathered h replies <;> simp [Answer.map, Answer.error?]

theorem ready_fresh {Is : List Index} {replies : List (Handle → Reply)}
    (hr : List.Forall₂ (fun I reply => I.Ready reply I.fresh) Is replies) :
    Ready Is replies (fresh Is) := by
  refine each_fresh fun i I hI => ?_
  have hi : i < Is.length := (List.getElem?_eq_some_iff.1 hI).1
  have hi' : i < replies.length := hr.length_eq ▸ hi
  have hri := hr.get hi hi'
  obtain rfl : Is[i] = I := (List.getElem?_eq_some_iff.1 hI).2
  have hat : replyAt replies i = replies[i] := by
    funext h
    simp [replyAt, hi']
  rw [hat]
  exact hri

end GroupState

end GraphQuery
