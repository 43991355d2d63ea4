import GraphQuery.Provided.Regex
import Mathlib.Tactic.ByContra

/-!
# What regular expressions match

`Regex.Spans` says between which positions an expression matches, however often it repeats a part.
Matching computes sets of positions in rounds, no more of them than there are positions. Nothing is
lost by that: a match never goes back, so one of more rounds than the characters it passes over
stands still in some of them, and these may be left out or added.
-/

namespace GraphQuery

/-- So many steps from one position to another. -/
def Repeats (step : Nat → Nat → Prop) : Nat → Nat → Nat → Prop
  | 0, i, j => i = j
  | n + 1, i, j => ∃ k, step i k ∧ Repeats step n k j

namespace Repeats

variable {step : Nat → Nat → Prop} {m n i j k : Nat}

theorem add : Repeats step (m + n) i j ↔ ∃ k, Repeats step m i k ∧ Repeats step n k j := by
  induction m generalizing i with
  | zero => simp [Repeats]
  | succ m ih =>
      rw [Nat.succ_add]
      simp only [Repeats, ih]
      constructor
      · rintro ⟨k, hstep, l, hm, hn⟩
        exact ⟨l, ⟨k, hstep, hm⟩, hn⟩
      · rintro ⟨l, ⟨k, hstep, hm⟩, hn⟩
        exact ⟨k, hstep, l, hm, hn⟩

theorem keeps (P : Nat → Prop) (hP : ∀ {i j}, step i j → P i → P j) (h : Repeats step n i j)
    (hi : P i) : P j := by
  induction n generalizing i with
  | zero => exact h ▸ hi
  | succ n ih =>
      obtain ⟨k, hik, hkj⟩ := h
      exact ih hkj (hP hik hi)

theorem le (hstep : ∀ {i j}, step i j → i ≤ j) (h : Repeats step n i j) : i ≤ j :=
  h.keeps (i ≤ ·) (fun hjk hij => Nat.le_trans hij (hstep hjk)) (Nat.le_refl i)

theorem stand (hi : step i i) (h : Repeats step n i j) : Repeats step (m + n) i j := by
  induction m with
  | zero => rwa [Nat.zero_add]
  | succ m ih =>
      rw [Nat.succ_add]
      exact ⟨i, hi, ih⟩

/-- With more steps than positions passed, some of the steps stand still. So as many steps will do
as there are positions passed, or any greater number. -/
theorem resize (hstep : ∀ {i j}, step i j → i ≤ j) (h : Repeats step n i j) (hn : j - i < n)
    (hm : j - i ≤ m) : Repeats step m i j := by
  induction n generalizing i m with
  | zero => exact absurd hn (Nat.not_lt_zero _)
  | succ n ih =>
      obtain ⟨k, hik, hkj⟩ := h
      have hle := hstep hik
      have hle' := hkj.le hstep
      rcases Nat.eq_or_lt_of_le hle with rfl | hlt
      -- A step that stands still is left out, unless it is the last one to spare: that is repeated.
      · by_cases hfew : j - i < n
        · exact ih hkj hfew hm
        · obtain ⟨d, rfl⟩ := Nat.exists_eq_add_of_le' (show n ≤ m by omega)
          exact hkj.stand hik
      · obtain ⟨m, rfl⟩ := Nat.exists_eq_add_of_le' (show 1 ≤ m by omega)
        exact ⟨k, hik, ih hkj (by omega) (by omega)⟩

/-- In a text of this size, a repetition of at least `low` steps, and at most `high` if there is a
bound, need not be followed for more rounds than there are positions, before or after `low`. -/
theorem rounds_iff {size : Nat} (hstep : ∀ {i j}, step i j → i ≤ j) (hij : j - i ≤ size)
    (low : Nat) (high : Option Nat) :
    let rounds := size + 1
    let more := match high with
      | none => rounds
      | some high => Nat.min rounds (high - low)
    (∃ n, Nat.min rounds low ≤ n ∧ n ≤ Nat.min rounds low + more ∧ Repeats step n i j) ↔
      ∃ n, low ≤ n ∧ (∀ m, high = some m → n ≤ Nat.max low m) ∧ Repeats step n i j := by
  intro rounds more
  have hrounds : rounds = size + 1 := rfl
  have hleast : Nat.min rounds low = min rounds low := rfl
  have hmore : ∀ m, high = some m → more = min rounds (m - low) ∧ Nat.max low m = max low m :=
    fun m hm => by subst hm; exact ⟨rfl, rfl⟩
  constructor
  · rintro ⟨n, hlo, hhi, hn⟩
    by_cases hlow : low ≤ rounds
    · refine ⟨n, by omega, fun m hm => ?_, hn⟩
      have := hmore m hm
      omega
    · exact ⟨low, Nat.le_refl _, fun m _ => Nat.le_max_left _ _,
        hn.resize hstep (by omega) (by omega)⟩
  · rintro ⟨n, hlo, hhi, hn⟩
    by_cases hfit : n ≤ Nat.min rounds low + more
    · exact ⟨n, by omega, hfit, hn⟩
    · have hmany : size < Nat.min rounds low + more := by
        cases hhigh : high with
        | none =>
            have : more = rounds := by subst hhigh; rfl
            omega
        | some m =>
            have := hmore m hhigh
            have := hhi m hhigh
            omega
      exact ⟨_, Nat.le_add_right _ _, Nat.le_refl _, hn.resize hstep (by omega) (by omega)⟩

end Repeats

namespace Regex

def Spans (text : Array Char) : Regex → Nat → Nat → Prop
  | .empty, i, j => j = i
  | .chars s, i, j => j = i + 1 ∧ text[i]?.any s.mem
  | .anchor a, i, j => j = i ∧ a.holds (before? text i) text[i]?
  | .seq r q, i, j => ∃ k, r.Spans text i k ∧ q.Spans text k j
  | .alt r q, i, j => r.Spans text i j ∨ q.Spans text i j
  | .times r min max, i, j =>
      ∃ n, min ≤ n ∧ (∀ m, max = some m → n ≤ Nat.max min m) ∧ Repeats (r.Spans text) n i j

variable {text : Array Char}

theorem Spans.le {r : Regex} {i j : Nat} (h : r.Spans text i j) : i ≤ j := by
  induction r generalizing i j with
  | empty => exact Nat.le_of_eq h.symm
  | chars s => exact h.1 ▸ Nat.le_succ i
  | anchor a => exact Nat.le_of_eq h.1.symm
  | seq r q ihr ihq =>
      obtain ⟨k, hr, hq⟩ := h
      exact Nat.le_trans (ihr hr) (ihq hq)
  | alt r q ihr ihq => exact h.elim ihr ihq
  | times r min max ih =>
      obtain ⟨n, -, -, hn⟩ := h
      exact hn.le ih

theorem Spans.le_size {r : Regex} {i j : Nat} (h : r.Spans text i j) (hi : i ≤ text.size) :
    j ≤ text.size := by
  induction r generalizing i j with
  | empty => exact h ▸ hi
  | chars s =>
      obtain ⟨rfl, hc⟩ := h
      by_contra hlt
      rw [Array.getElem?_eq_none (by omega)] at hc
      simp at hc
  | anchor a => exact h.1 ▸ hi
  | seq r q ihr ihq =>
      obtain ⟨k, hr, hq⟩ := h
      exact ihq hq (ihr hr hi)
  | alt r q ihr ihq => exact h.elim (ihr · hi) (ihq · hi)
  | times r min max ih =>
      obtain ⟨n, -, -, hn⟩ := h
      exact hn.keeps (· ≤ text.size) ih hi

/-! ## Sets of positions -/

@[simp] theorem mem_merge {xs ys : List Nat} {j : Nat} : j ∈ merge xs ys ↔ j ∈ xs ∨ j ∈ ys := by
  by_cases hj : j ∈ xs <;> simp [merge, hj]

theorem subset_of_length_merge {xs ys : List Nat} (h : (merge xs ys).length = xs.length) :
    ∀ j ∈ ys, j ∈ xs := by
  intro j hj
  have hnew : ys.filter (!xs.contains ·) = [] := by
    rw [merge, List.length_append] at h
    exact List.eq_nil_of_length_eq_zero (by omega)
  by_contra hnot
  have hmem : j ∈ ys.filter (!xs.contains ·) := List.mem_filter.2 ⟨hj, by simpa using hnot⟩
  rw [hnew] at hmem
  exact List.not_mem_nil hmem

section Rounds

variable {f : List Nat → List Nat} {step : Nat → Nat → Prop} {size : Nat}

structure Steps (f : List Nat → List Nat) (step : Nat → Nat → Prop) (size : Nat) : Prop where
  mem_iff : ∀ {xs j}, (∀ i ∈ xs, i ≤ size) → (j ∈ f xs ↔ ∃ i ∈ xs, step i j)
  le_size : ∀ {i j}, step i j → i ≤ size → j ≤ size

namespace Steps

variable (hf : Steps f step size) {xs : List Nat} {j : Nat}
include hf

theorem bounded (hxs : ∀ i ∈ xs, i ≤ size) : ∀ j ∈ f xs, j ≤ size := by
  intro j hj
  obtain ⟨i, hi, hij⟩ := (hf.mem_iff hxs).1 hj
  exact hf.le_size hij (hxs i hi)

theorem mem_iterate (hxs : ∀ i ∈ xs, i ≤ size) (n : Nat) :
    j ∈ iterate f n xs ↔ ∃ i ∈ xs, Repeats step n i j := by
  induction n generalizing xs with
  | zero => simp [iterate, Repeats]
  | succ n ih =>
      unfold iterate
      split
      next hempty => simp [List.isEmpty_iff.1 hempty]
      next =>
        simp only [ih (hf.bounded hxs), hf.mem_iff hxs, Repeats]
        constructor
        · rintro ⟨k, ⟨i, hi, hik⟩, hkj⟩
          exact ⟨i, hi, k, hik, hkj⟩
        · rintro ⟨i, hi, k, hik, hkj⟩
          exact ⟨k, ⟨i, hi, hik⟩, hkj⟩

theorem mem_collect (hxs : ∀ i ∈ xs, i ≤ size) (n : Nat) :
    j ∈ collect f n xs ↔ ∃ i ∈ xs, ∃ k ≤ n, Repeats step k i j := by
  induction n generalizing xs with
  | zero => simp [collect, Repeats]
  | succ n ih =>
      have hmerge : ∀ i ∈ merge xs (f xs), i ≤ size := fun i hi =>
        (mem_merge.1 hi).elim (hxs i) (hf.bounded hxs i)
      unfold collect
      dsimp only
      split
      next hsame =>
        have hclosed := subset_of_length_merge hsame
        constructor
        · exact fun hj => ⟨j, hj, 0, Nat.zero_le _, rfl⟩
        · rintro ⟨i, hi, k, -, hij⟩
          exact hij.keeps (· ∈ xs) (fun hik hi => hclosed _ ((hf.mem_iff hxs).2 ⟨_, hi, hik⟩)) hi
      next =>
        rw [ih hmerge]
        constructor
        · rintro ⟨i, hi, k, hk, hij⟩
          rcases mem_merge.1 hi with hi | hi
          · exact ⟨i, hi, k, by omega, hij⟩
          · obtain ⟨l, hl, hli⟩ := (hf.mem_iff hxs).1 hi
            exact ⟨l, hl, k + 1, by omega, i, hli, hij⟩
        · rintro ⟨i, hi, k, hk, hij⟩
          rcases Nat.eq_or_lt_of_le hk with rfl | hlt
          · obtain ⟨l, hil, hlj⟩ := hij
            have hl : l ∈ f xs := (hf.mem_iff hxs).2 ⟨i, hi, hil⟩
            exact ⟨l, mem_merge.2 (.inr hl), n, Nat.le_refl n, hlj⟩
          · exact ⟨i, mem_merge.2 (.inl hi), k, by omega, hij⟩

end Steps

end Rounds

/-! ## Matching -/

theorem mem_ends {r : Regex} {starts : List Nat} {j : Nat} (hs : ∀ i ∈ starts, i ≤ text.size) :
    j ∈ r.ends text starts ↔ ∃ i ∈ starts, r.Spans text i j := by
  induction r generalizing starts j with
  | empty => simp [ends, Spans]
  | chars s =>
      simp only [ends, Spans, List.mem_map, List.mem_filter]
      constructor
      · rintro ⟨i, ⟨hi, hc⟩, rfl⟩
        exact ⟨i, hi, rfl, hc⟩
      · rintro ⟨i, hi, rfl, hc⟩
        exact ⟨i, ⟨hi, hc⟩, rfl⟩
  | anchor a =>
      simp only [ends, Spans, List.mem_filter]
      constructor
      · rintro ⟨hj, ha⟩
        exact ⟨j, hj, rfl, ha⟩
      · rintro ⟨i, hi, rfl, ha⟩
        exact ⟨hi, ha⟩
  | seq r q ihr ihq =>
      have hbounded : ∀ i ∈ r.ends text starts, i ≤ text.size := by
        intro i hi
        obtain ⟨k, hk, hki⟩ := (ihr hs).1 hi
        exact hki.le_size (hs k hk)
      simp only [ends, Spans, ihq hbounded, ihr hs]
      constructor
      · rintro ⟨k, ⟨i, hi, hik⟩, hkj⟩
        exact ⟨i, hi, k, hik, hkj⟩
      · rintro ⟨i, hi, k, hik, hkj⟩
        exact ⟨k, ⟨i, hi, hik⟩, hkj⟩
  | alt r q ihr ihq =>
      simp only [ends, Spans, mem_merge, ihr hs, ihq hs]
      constructor
      · rintro (⟨i, hi, h⟩ | ⟨i, hi, h⟩)
        · exact ⟨i, hi, .inl h⟩
        · exact ⟨i, hi, .inr h⟩
      · rintro ⟨i, hi, h | h⟩
        · exact .inl ⟨i, hi, h⟩
        · exact .inr ⟨i, hi, h⟩
  | times r min max ih =>
      have hsteps : Steps (r.ends text) (r.Spans text) text.size := ⟨ih, fun h hi => h.le_size hi⟩
      have hiterate := fun i => hsteps.mem_iterate hs (j := i) (Nat.min (text.size + 1) min)
      have hbounded : ∀ i ∈ iterate (r.ends text) (Nat.min (text.size + 1) min) starts,
          i ≤ text.size := by
        intro i hi
        obtain ⟨k, hk, hki⟩ := (hiterate i).1 hi
        exact hki.keeps (· ≤ text.size) hsteps.le_size (hs k hk)
      have hrounds : ∀ i ∈ starts, ∀ n, Repeats (r.Spans text) n i j → j - i ≤ text.size := by
        intro i hi n hij
        have hj : j ≤ text.size := hij.keeps (· ≤ text.size) hsteps.le_size (hs i hi)
        omega
      simp only [ends, hsteps.mem_collect hbounded, hiterate, Spans]
      constructor
      · rintro ⟨k, ⟨i, hi, hik⟩, m, hm, hkj⟩
        have hij := Repeats.add.2 ⟨k, hik, hkj⟩
        exact ⟨i, hi, (Repeats.rounds_iff Spans.le (hrounds i hi _ hij) min max).1
          ⟨_, Nat.le_add_right _ _, Nat.add_le_add_left hm _, hij⟩⟩
      · rintro ⟨i, hi, n, hmin, hmax, hij⟩
        obtain ⟨n, hlo, hhi, hij⟩ := (Repeats.rounds_iff Spans.le (hrounds i hi n hij) min max).2
          ⟨n, hmin, hmax, hij⟩
        obtain ⟨m, rfl⟩ := Nat.exists_eq_add_of_le hlo
        obtain ⟨k, hik, hkj⟩ := Repeats.add.1 hij
        exact ⟨k, ⟨i, hi, hik⟩, m, Nat.le_of_add_le_add_left hhi, hkj⟩

/-- A text matches if the expression matches from one of its positions to another. -/
theorem isMatch_iff {r : Regex} {text : String} :
    r.isMatch text = true ↔
      ∃ i j, i ≤ text.toList.length ∧ r.Spans text.toList.toArray i j := by
  have hstarts : ∀ i, i ∈ List.range (text.toList.toArray.size + 1) ↔ i ≤ text.toList.length := by
    intro i
    rw [List.mem_range, List.size_toArray, Nat.lt_succ_iff]
  have hs : ∀ i ∈ List.range (text.toList.toArray.size + 1), i ≤ text.toList.toArray.size :=
    fun i hi => (hstarts i).1 hi
  unfold isMatch
  rw [Bool.not_eq_true', List.isEmpty_eq_false_iff_exists_mem]
  simp only [mem_ends hs, hstarts]
  constructor
  · rintro ⟨j, i, hi, hij⟩
    exact ⟨i, j, hi, hij⟩
  · rintro ⟨i, j, hi, hij⟩
    exact ⟨j, i, hi, hij⟩

end Regex

end GraphQuery
