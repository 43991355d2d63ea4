import GraphQuery.Number.Binary64
import Mathlib.Algebra.Group.Nat.Defs
import Mathlib.Data.Nat.Log

/-!
# Rounding integers to doubles

The nearest double of a greater integer is no less. The significand of a positive number fills
fifty-three bits, so the exponent field is read off the number of its bits; numbers of as many bits
are told apart by the significand, and rounding up carries into the exponent at most once.
-/

namespace GraphQuery.Binary64

/-! ## Quotients -/

theorem le_roundHalfEven (num den : Nat) : num / den ≤ roundHalfEven num den := by
  simp only [roundHalfEven]
  split
  · exact Nat.le_refl _
  · split <;> omega

theorem roundHalfEven_le (num den : Nat) : roundHalfEven num den ≤ num / den + 1 := by
  simp only [roundHalfEven]
  split
  · omega
  · split <;> omega

theorem roundHalfEven_mono {a b : Nat} (den : Nat) (h : a ≤ b) :
    roundHalfEven a den ≤ roundHalfEven b den := by
  have hq : a / den ≤ b / den := Nat.div_le_div_right h
  rcases Nat.lt_or_eq_of_le hq with hlt | heq
  · exact Nat.le_trans (roundHalfEven_le a den) (Nat.le_trans hlt (le_roundHalfEven b den))
  · have hr : a % den ≤ b % den := by
      have ha := Nat.div_add_mod a den
      have hb := Nat.div_add_mod b den
      rw [heq] at ha
      omega
    simp only [roundHalfEven, heq]
    repeat' split
    all_goals omega

theorem roundHalfEven_one (num : Nat) : roundHalfEven num 1 = num := by
  simp [roundHalfEven, Nat.mod_one]

/-! ## Magnitudes -/

theorem exponentBit_eq : exponentBit = 2 ^ 52 := by
  decide

theorem two_pow_log2_le {num : Nat} (hn : 0 < num) : 2 ^ num.log2 ≤ num :=
  (Nat.log2_eq_iff (by omega)).1 rfl |>.1

theorem lt_two_pow_log2 {num : Nat} (hn : 0 < num) : num < 2 ^ (num.log2 + 1) :=
  (Nat.log2_eq_iff (by omega)).1 rfl |>.2

theorem exponentFor_one {num : Nat} (hn : 0 < num) : exponentFor num 1 = num.log2 + 1022 := by
  have hlow := two_pow_log2_le hn
  have hlog : Nat.log2 1 = 0 := by decide
  have hguess : num.log2 + 1074 - 53 - Nat.log2 1 = num.log2 + 1021 := by omega
  simp only [exponentFor, hguess, exponentBit_eq, rescale]
  by_cases hs : num.log2 ≤ 53
  · have hfill : 2 * 2 ^ 52 * 1 ≤ num <<< (1074 - (num.log2 + 1021)) := by
      rw [Nat.shiftLeft_eq, show 1074 - (num.log2 + 1021) = 53 - num.log2 by omega]
      calc 2 * 2 ^ 52 * 1 = 2 ^ 53 := by decide
        _ = 2 ^ num.log2 * 2 ^ (53 - num.log2) := by
            rw [← Nat.pow_add, show num.log2 + (53 - num.log2) = 53 by omega]
        _ ≤ num * 2 ^ (53 - num.log2) := Nat.mul_le_mul_right _ hlow
    rw [if_pos (show num.log2 + 1021 ≤ 1074 by omega)]
    exact if_pos hfill
  · have hfill : 2 * 2 ^ 52 * 1 <<< (num.log2 + 1021 - 1074) ≤ num := by
      rw [Nat.shiftLeft_eq, Nat.one_mul, show num.log2 + 1021 - 1074 = num.log2 - 53 by omega]
      calc 2 * 2 ^ 52 * 2 ^ (num.log2 - 53) = 2 ^ num.log2 := by
            rw [show 2 * 2 ^ 52 = 2 ^ 53 by decide, ← Nat.pow_add,
              show 53 + (num.log2 - 53) = num.log2 by omega]
        _ ≤ num := hlow
    rw [if_neg (show ¬ num.log2 + 1021 ≤ 1074 by omega)]
    exact if_pos hfill

/-- The bits below the sign of the nearest double, were there no largest one. -/
def nearest (num : Nat) : Nat :=
  exponentFor num 1 * exponentBit +
    roundHalfEven (rescale num 1 (exponentFor num 1)).1 (rescale num 1 (exponentFor num 1)).2

theorem nearest_eq {num : Nat} (hn : 0 < num) :
    nearest num = (num.log2 + 1022) * exponentBit +
      if num.log2 ≤ 52 then num * 2 ^ (52 - num.log2)
      else roundHalfEven num (2 ^ (num.log2 - 52)) := by
  rw [nearest, exponentFor_one hn, rescale]
  by_cases hs : num.log2 ≤ 52
  · rw [if_pos (by omega), if_pos hs, roundHalfEven_one, Nat.shiftLeft_eq,
      show 1074 - (num.log2 + 1022) = 52 - num.log2 by omega]
  · rw [if_neg (by omega), if_neg hs, Nat.shiftLeft_eq, Nat.one_mul,
      show num.log2 + 1022 - 1074 = num.log2 - 52 by omega]

theorem significand_bounds {num : Nat} (hn : 0 < num) :
    (num.log2 + 1023) * exponentBit ≤ nearest num ∧
      nearest num ≤ (num.log2 + 1024) * exponentBit := by
  have hlow := two_pow_log2_le hn
  have hhigh := lt_two_pow_log2 hn
  rw [nearest_eq hn, exponentBit_eq]
  by_cases hs : num.log2 ≤ 52
  · have hpow : 2 ^ num.log2 * 2 ^ (52 - num.log2) = 2 ^ 52 := by
      rw [← Nat.pow_add, show num.log2 + (52 - num.log2) = 52 by omega]
    have hpow' : 2 ^ (num.log2 + 1) * 2 ^ (52 - num.log2) = 2 * 2 ^ 52 := by
      rw [Nat.pow_succ, Nat.mul_right_comm, hpow, Nat.mul_comm]
    have h₁ := Nat.mul_le_mul_right (2 ^ (52 - num.log2)) hlow
    have h₂ := Nat.mul_le_mul_right (2 ^ (52 - num.log2)) (Nat.le_of_lt hhigh)
    rw [if_pos hs]
    omega
  · have hden : 0 < 2 ^ (num.log2 - 52) := Nat.two_pow_pos _
    have hpow : 2 ^ 52 * 2 ^ (num.log2 - 52) = 2 ^ num.log2 := by
      rw [← Nat.pow_add, show 52 + (num.log2 - 52) = num.log2 by omega]
    have hdown : 2 ^ 52 ≤ num / 2 ^ (num.log2 - 52) := by
      rw [Nat.le_div_iff_mul_le hden, hpow]
      exact hlow
    have hup : num / 2 ^ (num.log2 - 52) < 2 * 2 ^ 52 := by
      rw [Nat.div_lt_iff_lt_mul hden, Nat.mul_assoc, hpow, Nat.mul_comm, ← Nat.pow_succ]
      exact hhigh
    have h₁ := le_roundHalfEven num (2 ^ (num.log2 - 52))
    have h₂ := roundHalfEven_le num (2 ^ (num.log2 - 52))
    rw [if_neg hs]
    omega

theorem nearest_mono {a b : Nat} (ha : 0 < a) (h : a ≤ b) : nearest a ≤ nearest b := by
  have hb : 0 < b := by omega
  have hlog : a.log2 ≤ b.log2 := by
    rw [Nat.log2_eq_log_two, Nat.log2_eq_log_two]
    exact Nat.log_mono_right h
  rcases Nat.lt_or_eq_of_le hlog with hlt | heq
  · have h₁ := (significand_bounds ha).2
    have h₂ := (significand_bounds hb).1
    have h₃ : (a.log2 + 1024) * exponentBit ≤ (b.log2 + 1023) * exponentBit :=
      Nat.mul_le_mul_right _ (by omega)
    omega
  · rw [nearest_eq ha, nearest_eq hb, heq]
    by_cases hs : b.log2 ≤ 52
    · rw [if_pos hs, if_pos hs]
      exact Nat.add_le_add_left (Nat.mul_le_mul_right _ h) _
    · rw [if_neg hs, if_neg hs]
      exact Nat.add_le_add_left (roundHalfEven_mono _ h) _

/-! ## Integers -/

theorem magnitude_ofMagnitude (negative : Bool) {m : Nat} (hm : m < signBit) :
    (ofMagnitude negative m).magnitude = m := by
  have hsign : signBit = 2 ^ 63 := by decide
  cases negative <;> simp only [ofMagnitude, magnitude, Nat.toUInt64, UInt64.toNat_ofNat', hsign,
    if_true, if_false, Bool.false_eq_true] at hm ⊢ <;> omega

theorem isNegative_ofMagnitude (negative : Bool) {m : Nat} (hm : m < signBit) :
    (ofMagnitude negative m).isNegative = negative := by
  have hsign : signBit = 2 ^ 63 := by decide
  cases negative <;> simp only [ofMagnitude, isNegative, Nat.toUInt64, UInt64.toNat_ofNat', hsign,
    if_true, if_false, Bool.false_eq_true, decide_eq_true_eq, decide_eq_false_iff_not] at hm ⊢ <;>
    omega

def rounding (num : Nat) : Nat :=
  if num = 0 then 0 else min (2047 * exponentBit) (nearest num)

theorem rounding_lt (num : Nat) : rounding num < signBit := by
  have : 2047 * exponentBit < signBit := by decide
  unfold rounding
  split
  · decide
  · omega

theorem rounding_mono {a b : Nat} (h : a ≤ b) : rounding a ≤ rounding b := by
  unfold rounding
  by_cases ha : a = 0
  · simp [ha]
  · have := nearest_mono (by omega : 0 < a) h
    rw [if_neg ha, if_neg (by omega)]
    omega

theorem ofInt_eq (i : Int) : ofInt i = ofMagnitude (i < 0) (rounding i.natAbs) := by
  have hratio : ofInt i =
      if i.natAbs = 0 then ofMagnitude (i < 0) 0
      else if 2047 * exponentBit ≤ nearest i.natAbs then infinity (i < 0)
      else ofMagnitude (i < 0) (nearest i.natAbs) := by
    unfold ofInt ofRatio nearest
    generalize exponentFor i.natAbs 1 = e
    dsimp only
  rw [hratio, rounding]
  by_cases h0 : i.natAbs = 0
  · rw [if_pos h0, if_pos h0]
  · rw [if_neg h0, if_neg h0]
    by_cases hlarge : 2047 * exponentBit ≤ nearest i.natAbs
    · rw [if_pos hlarge, Nat.min_eq_left hlarge]
      rfl
    · rw [if_neg hlarge, Nat.min_eq_right (by omega)]

theorem totalKey_ofInt (i : Int) :
    (ofInt i).totalKey =
      if i < 0 then -1 - (rounding i.natAbs : Int) else (rounding i.natAbs : Int) := by
  rw [ofInt_eq, totalKey, magnitude_ofMagnitude _ (rounding_lt _),
    isNegative_ofMagnitude _ (rounding_lt _)]
  simp only [decide_eq_true_eq]

theorem totalKey_ofInt_mono {i j : Int} (h : i ≤ j) : (ofInt i).totalKey ≤ (ofInt j).totalKey := by
  rw [totalKey_ofInt, totalKey_ofInt]
  by_cases hi : i < 0
  · by_cases hj : j < 0
    · have := rounding_mono (by omega : j.natAbs ≤ i.natAbs)
      rw [if_pos hi, if_pos hj]
      omega
    · rw [if_pos hi, if_neg hj]
      omega
  · have := rounding_mono (by omega : i.natAbs ≤ j.natAbs)
    rw [if_neg hi, if_neg (by omega)]
    omega

end GraphQuery.Binary64
