import GraphQuery.Proofs.Value.Rounding
import GraphQuery.Value
import Mathlib.Order.Compare

/-!
# The total order of values

The total order is lexicographic: by rank, then by a whole number, then by what is told apart by
that number no more, and last by texts. An integer is placed by the double nearest to it, which
keeps the order of integers since rounding is monotone. Values in this order are the same list
whatever order they come in.
-/

/-- Doubles with the same place in the total order have the same bits. -/
theorem GraphQuery.Binary64.totalKey_inj {x y : Binary64} (h : x.totalKey = y.totalKey) :
    x = y := by
  have hx := x.bits.toNat_lt
  have hy := y.bits.toNat_lt
  have hneg : ∀ z : Binary64, z.isNegative = true ↔ z.bits.toNat / signBit = 1 := fun z =>
    decide_eq_true_iff
  have hbits : x.bits.toNat = y.bits.toNat := by
    unfold totalKey at h
    split at h <;> split at h <;> simp only [hneg, magnitude, signBit] at * <;> omega
  cases x
  cases y
  exact congrArg _ (UInt64.toNat_inj.1 hbits)

namespace GraphQuery.Value

def place : Value → Int
  | .int n => (rounded n).totalKey
  | .float x => x.totalKey
  | .bool b => if b then 1 else 0
  | .time t => t.seconds
  | _ => 0

def subplace : Value → Int
  | .float _ => 1
  | .time t => t.nanos
  | _ => 0

/-- Tells apart integers that are rounded to the same double. -/
def exactly : Value → Int
  | .int n => n.toInt
  | _ => 0

def primaryText : Value → String
  | .iri s | .blank s | .str s | .lang s _ | .typed s _ => s
  | _ => ""

def qualifier : Value → String
  | .lang _ q | .typed _ q => q
  | _ => ""

def lexCompare : Value → Value → Ordering :=
  compareLex (compareOn rank) <| compareLex (compareOn place) <| compareLex (compareOn subplace) <|
    compareLex (compareOn exactly) <| compareLex (compareOn primaryText) (compareOn qualifier)

theorem compare_rounded (a b : Int64) :
    (compare (rounded a).totalKey (rounded b).totalKey).then (compare a.toInt b.toInt) =
      compare a.toInt b.toInt := by
  rcases Int.lt_trichotomy a.toInt b.toInt with h | h | h
  · have hk : (rounded a).totalKey ≤ (rounded b).totalKey :=
      Binary64.totalKey_ofInt_mono (Int.le_of_lt h)
    rw [compare_lt_iff_lt.2 h]
    rcases Int.lt_or_eq_of_le hk with hk | hk
    · rw [compare_lt_iff_lt.2 hk]
      rfl
    · rw [compare_eq_iff_eq.2 hk]
      rfl
  · have hk : (rounded a).totalKey = (rounded b).totalKey := by
      rw [rounded, rounded, h]
    rw [compare_eq_iff_eq.2 hk]
    rfl
  · have hk : (rounded b).totalKey ≤ (rounded a).totalKey :=
      Binary64.totalKey_ofInt_mono (Int.le_of_lt h)
    rw [compare_gt_iff_gt.2 h]
    rcases Int.lt_or_eq_of_le hk with hk | hk
    · rw [compare_gt_iff_gt.2 hk]
      rfl
    · rw [compare_eq_iff_eq.2 hk.symm]
      rfl

theorem compare_natCast (m n : Nat) : compare (m : Int) (n : Int) = compare m n := by
  rcases Nat.lt_trichotomy m n with h | h | h
  · rw [compare_lt_iff_lt.2 h, compare_lt_iff_lt.2 (by omega)]
  · rw [compare_eq_iff_eq.2 h, compare_eq_iff_eq.2 (by omega)]
  · rw [compare_gt_iff_gt.2 h, compare_gt_iff_gt.2 (by omega)]

theorem compare_bool (a b : Bool) :
    compare (if a then (1 : Int) else 0) (if b then 1 else 0) = compare a b := by
  cases a <;> cases b <;> rfl

/-- The total order is lexicographic. -/
theorem totalCompare_eq (a b : Value) : a.totalCompare b = lexCompare a b := by
  have hself : ∀ {α : Type} [Ord α] [Std.ReflOrd α] (x : α), compare x x = .eq :=
    fun x => Std.ReflOrd.compare_self
  cases a <;> cases b <;> first
    | rfl
    | simp only [totalCompare, lexCompare, compareLex, compareOn, rank, place, subplace, exactly,
        primaryText, qualifier, compare?, hself, Ordering.then_eq, Ordering.eq_then,
        Option.getD_some, compare_rounded, compare_natCast, compare_bool, Binary64.totalCompare,
        Instant.compare]
      try rfl

instance : Std.TransCmp totalCompare := by
  rw [show totalCompare = lexCompare from funext fun a => funext fun b => totalCompare_eq a b]
  unfold lexCompare
  infer_instance

theorem isLE_total (a b : Value) : (a.totalCompare b).isLE || (b.totalCompare a).isLE := by
  have hswap : b.totalCompare a = (a.totalCompare b).swap := Std.OrientedCmp.eq_swap
  rw [hswap]
  cases a.totalCompare b <;> rfl

theorem isLE_trans {a b c : Value} (hab : (a.totalCompare b).isLE) (hbc : (b.totalCompare c).isLE) :
    (a.totalCompare c).isLE :=
  Std.TransCmp.isLE_trans hab hbc

theorem eq_of_totalCompare {a b : Value} (h : a.totalCompare b = .eq) : a = b := by
  rw [totalCompare_eq] at h
  simp only [lexCompare, compareLex, compareOn, Ordering.then_eq_eq, Std.compare_eq_iff_eq] at h
  obtain ⟨hrank, hplace, hsub, hexact, htext, hqual⟩ := h
  cases a <;> cases b <;> first
    | exact congrArg _ htext
    | exact congrArg₂ _ htext hqual
    | (simp [rank] at hrank; done)
    | (simp [subplace] at hsub; done)
    | skip
  case int.int a b => exact congrArg _ (Int64.toInt_inj.1 hexact)
  case float.float x y => exact congrArg _ (Binary64.totalKey_inj hplace)
  case bool.bool a b => cases a <;> cases b <;> first | rfl | simp [place] at hplace
  case time.time t u =>
    obtain ⟨seconds, nanos⟩ := t
    obtain ⟨seconds', nanos'⟩ := u
    obtain rfl : seconds = seconds' := hplace
    obtain rfl : nanos = nanos' := Int.ofNat_inj.1 hsub
    rfl

theorem isLE_antisymm {a b : Value} (hab : (a.totalCompare b).isLE)
    (hba : (b.totalCompare a).isLE) : a = b :=
  eq_of_totalCompare (Std.OrientedCmp.isLE_antisymm hab hba)

/-! ## Values in order -/

def ascending (vs : List Value) : List Value :=
  vs.mergeSort fun v w => (v.totalCompare w).isLE

theorem pairwise_ascending (vs : List Value) :
    (ascending vs).Pairwise fun v w => (v.totalCompare w).isLE := by
  apply List.pairwise_mergeSort
  · exact fun a b c hab hbc => isLE_trans hab hbc
  · exact fun a b => isLE_total a b

end GraphQuery.Value
