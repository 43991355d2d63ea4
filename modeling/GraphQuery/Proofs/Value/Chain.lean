import GraphQuery.Proofs.Value.Family

/-!
# Chains within a family

Where one value is at most a second and that at most a third, the first is at most the third. This
holds in every family, and among numbers as long as rounding tells apart what is told apart without
it: integers are compared exactly with each other but through the nearest double with floats, so two
integers and a double to which both are rounded make a cycle. These cycles are the only exceptions.
-/

namespace GraphQuery

namespace Binary64

theorem compare?_eq_some_iff {x y : Binary64} {o : Ordering} :
    x.compare? y = some o ↔
      x.isNaN = false ∧ y.isNaN = false ∧ compare x.realKey y.realKey = o := by
  unfold compare?
  cases x.isNaN <;> cases y.isNaN <;> simp

/-! ## Rounded integers on the real line -/

theorem isNaN_ofMagnitude (negative : Bool) {m : Nat} (hm : m ≤ 2047 * exponentBit) :
    (ofMagnitude negative m).isNaN = false := by
  have hlt : m < signBit := Nat.lt_of_le_of_lt hm (by decide)
  have hfraction : m / exponentBit = 2047 → m % exponentBit = 0 := by
    rw [exponentBit_eq] at hm ⊢
    omega
  simpa [isNaN, exponentField, fraction, magnitude_ofMagnitude negative hlt] using hfraction

theorem rounding_le (num : Nat) : rounding num ≤ 2047 * exponentBit := by
  unfold rounding
  split
  · exact Nat.zero_le _
  · exact Nat.min_le_left _ _

theorem isNaN_ofInt (i : Int) : (ofInt i).isNaN = false := by
  rw [ofInt_eq]
  exact isNaN_ofMagnitude _ (rounding_le _)

theorem realKey_ofInt_mono {i j : Int} (h : i ≤ j) : (ofInt i).realKey ≤ (ofInt j).realKey := by
  by_contra hlt
  have hkeys := totalKey_lt_of_realKey (Int.not_le.1 hlt)
  exact Int.not_le.2 hkeys (totalKey_ofInt_mono h)

end Binary64

namespace Value

/-! ## Two steps upwards -/

/-- What two steps upwards should come to: a step upwards, and one to an equal only if both were. -/
def Composes (o o' u : Ordering) : Prop :=
  u.isLE ∧ (u = .eq → o = .eq ∧ o' = .eq)

theorem composes_of_transCmp {α : Type} {cmp : α → α → Ordering} [Std.TransCmp cmp] {a b c : α}
    (hab : (cmp a b).isLE) (hbc : (cmp b c).isLE) : Composes (cmp a b) (cmp b c) (cmp a c) := by
  refine ⟨Std.TransCmp.isLE_trans hab hbc, fun heq => ?_⟩
  have hswap : cmp c a = (cmp a c).swap := Std.OrientedCmp.eq_swap
  have hca : (cmp c a).isLE := by
    rw [hswap, heq]
    rfl
  have hba : (cmp b a).isLE := Std.TransCmp.isLE_trans hbc hca
  have hcb : (cmp c b).isLE := Std.TransCmp.isLE_trans hca hab
  exact ⟨Std.OrientedCmp.isLE_antisymm hab hba, Std.OrientedCmp.isLE_antisymm hbc hcb⟩

instance : Std.TransCmp Instant.compare := by
  show Std.TransCmp (compareLex (compareOn Instant.seconds) (compareOn Instant.nanos))
  infer_instance

/-! ## Cycles of rounding -/

/-- Two integers in ascending order and a double that is equal to both. -/
structure Blurs (x : Binary64) (m n : Int64) : Prop where
  lt : m.toInt < n.toInt
  low : (Value.int m).compare? (.float x) = some .eq
  high : (Value.int n).compare? (.float x) = some .eq

/-- The integers are in ascending order, and the double comes after the greater and before the
lesser of them as an equal. -/
inductive Cycle : Value → Value → Value → Prop
  | low {x : Binary64} {m n : Int64} : Blurs x m n → Cycle (.int m) (.int n) (.float x)
  | high {x : Binary64} {m n : Int64} : Blurs x m n → Cycle (.int n) (.float x) (.int m)
  | double {x : Binary64} {m n : Int64} : Blurs x m n → Cycle (.float x) (.int m) (.int n)

variable {x y z : Binary64} {m n : Int64} {a b c : Value} {o o' : Ordering}

theorem compare?_double (h : y.isNaN = false) :
    (rounded n).compare? y = some (compare (rounded n).realKey y.realKey) :=
  Binary64.compare?_eq_some_iff.2 ⟨Binary64.isNaN_ofInt _, h, rfl⟩

theorem blurs_iff (hx : x.isNaN = false) :
    Blurs x m n ↔ m.toInt < n.toInt ∧ (rounded m).realKey = x.realKey ∧
      (rounded n).realKey = x.realKey := by
  have hequal : ∀ i : Int64, (Value.int i).compare? (.float x) = some .eq ↔
      (rounded i).realKey = x.realKey := by
    intro i
    rw [compare?, compare?_double hx, Option.some.injEq, compare_eq_iff_eq]
  constructor
  · exact fun h => ⟨h.lt, (hequal m).1 h.low, (hequal n).1 h.high⟩
  · rintro ⟨hlt, hlow, hhigh⟩
    exact ⟨hlt, (hequal m).2 hlow, (hequal n).2 hhigh⟩

theorem rounded_mono (h : m.toInt ≤ n.toInt) : (rounded m).realKey ≤ (rounded n).realKey :=
  Binary64.realKey_ofInt_mono h

/-- Doubles are in one transitive order. -/
theorem composes_doubles (hxy : x.compare? y = some o) (hyz : y.compare? z = some o')
    (ho : o.isLE) (ho' : o'.isLE) : ∃ u, x.compare? z = some u ∧ Composes o o' u := by
  obtain ⟨hx, -, rfl⟩ := Binary64.compare?_eq_some_iff.1 hxy
  obtain ⟨-, hz, rfl⟩ := Binary64.compare?_eq_some_iff.1 hyz
  exact ⟨_, Binary64.compare?_eq_some_iff.2 ⟨hx, hz, rfl⟩, composes_of_transCmp ho ho'⟩

theorem chain_low (hab : compare m.toInt n.toInt = o) (hbc : (rounded n).compare? x = some o')
    (ho : o.isLE) (ho' : o'.isLE) :
    ∃ u, (rounded m).compare? x = some u ∧
      (Composes o o' u ↔ ¬Cycle (.int m) (.int n) (.float x)) := by
  obtain ⟨-, hx, rfl⟩ := Binary64.compare?_eq_some_iff.1 hbc
  subst hab
  have hcycle : Cycle (.int m) (.int n) (.float x) ↔ Blurs x m n :=
    ⟨fun h => by cases h; assumption, .low⟩
  refine ⟨_, compare?_double hx, ?_⟩
  rw [Int.isLE_compare] at ho ho'
  rw [hcycle, blurs_iff hx, Composes, Int.isLE_compare, compare_eq_iff_eq, compare_eq_iff_eq,
    compare_eq_iff_eq]
  have := rounded_mono ho
  omega

theorem chain_high (hab : (rounded n).compare? x = some o) (hbc : x.compare? (rounded m) = some o')
    (ho : o.isLE) (ho' : o'.isLE) :
    Composes o o' (compare n.toInt m.toInt) ↔ ¬Cycle (.int n) (.float x) (.int m) := by
  obtain ⟨-, hx, rfl⟩ := Binary64.compare?_eq_some_iff.1 hab
  obtain ⟨-, -, rfl⟩ := Binary64.compare?_eq_some_iff.1 hbc
  have hcycle : Cycle (.int n) (.float x) (.int m) ↔ Blurs x m n :=
    ⟨fun h => by cases h; assumption, .high⟩
  rw [Int.isLE_compare] at ho ho'
  rw [hcycle, blurs_iff hx, Composes, Int.isLE_compare, compare_eq_iff_eq, compare_eq_iff_eq,
    compare_eq_iff_eq]
  rcases Int.lt_trichotomy m.toInt n.toInt with hlt | heq | hgt
  · have := rounded_mono (Int.le_of_lt hlt)
    omega
  · have hkey : (rounded m).realKey = (rounded n).realKey := by rw [rounded, rounded, heq]
    omega
  · omega

theorem chain_double (hab : x.compare? (rounded m) = some o) (hbc : compare m.toInt n.toInt = o')
    (ho : o.isLE) (ho' : o'.isLE) :
    ∃ u, x.compare? (rounded n) = some u ∧
      (Composes o o' u ↔ ¬Cycle (.float x) (.int m) (.int n)) := by
  obtain ⟨hx, -, rfl⟩ := Binary64.compare?_eq_some_iff.1 hab
  subst hbc
  have hcycle : Cycle (.float x) (.int m) (.int n) ↔ Blurs x m n :=
    ⟨fun h => by cases h; assumption, .double⟩
  refine ⟨_, Binary64.compare?_eq_some_iff.2 ⟨hx, Binary64.isNaN_ofInt _, rfl⟩, ?_⟩
  rw [Int.isLE_compare] at ho ho'
  rw [hcycle, blurs_iff hx, Composes, Int.isLE_compare, compare_eq_iff_eq, compare_eq_iff_eq,
    compare_eq_iff_eq]
  have := rounded_mono ho'
  omega

/-! ## Chains of any values -/

/-- Two steps upwards compose unless the values are in a cycle of rounding. -/
theorem compare?_chain (hab : a.compare? b = some o) (hbc : b.compare? c = some o')
    (ho : o.isLE) (ho' : o'.isLE) :
    ∃ u, a.compare? c = some u ∧ (Composes o o' u ↔ ¬Cycle a b c) := by
  have free : (∃ u, a.compare? c = some u ∧ Composes o o' u) → ¬Cycle a b c →
      ∃ u, a.compare? c = some u ∧ (Composes o o' u ↔ ¬Cycle a b c) := by
    rintro ⟨u, hu, hcomposes⟩ hcycle
    exact ⟨u, hu, iff_of_true hcomposes hcycle⟩
  have ordered {α : Type} {cmp : α → α → Ordering} [Std.TransCmp cmp] {s t r : α}
      (hst : some (cmp s t) = some o) (htr : some (cmp t r) = some o') :
      Composes o o' (cmp s r) := by
    cases hst
    cases htr
    exact composes_of_transCmp ho ho'
  -- Only values of one family are related, so both steps stay in it.
  cases a <;> cases b <;> first | cases hab; done | skip
  all_goals cases c <;> first | cases hbc; done | skip
  case int.int.int => exact free ⟨_, rfl, ordered hab hbc⟩ (by rintro ⟨⟩)
  case int.int.float => exact chain_low (Option.some.inj hab) hbc ho ho'
  case int.float.int => exact ⟨_, rfl, chain_high hab hbc ho ho'⟩
  case float.int.int => exact chain_double hab (Option.some.inj hbc) ho ho'
  case int.float.float => exact free (composes_doubles hab hbc ho ho') (by rintro ⟨⟩)
  case float.int.float => exact free (composes_doubles hab hbc ho ho') (by rintro ⟨⟩)
  case float.float.int => exact free (composes_doubles hab hbc ho ho') (by rintro ⟨⟩)
  case float.float.float => exact free (composes_doubles hab hbc ho ho') (by rintro ⟨⟩)
  case lang.lang.lang s l s' l' s'' l'' =>
    simp only [compare?, Option.ite_none_right_eq_some] at hab hbc
    obtain ⟨rfl, hab⟩ := hab
    obtain ⟨rfl, hbc⟩ := hbc
    exact free ⟨_, if_pos rfl, ordered hab hbc⟩ (by rintro ⟨⟩)
  case typed.typed.typed s d s' d' s'' d'' =>
    simp only [compare?, Option.ite_none_right_eq_some] at hab hbc
    obtain ⟨rfl, hab⟩ := hab
    obtain ⟨rfl, hbc⟩ := hbc
    exact free ⟨_, if_pos rfl, ordered hab hbc⟩ (by rintro ⟨⟩)
  all_goals exact free ⟨_, rfl, ordered hab hbc⟩ (by rintro ⟨⟩)

/-- The comparisons that a bound from above stands for. -/
def upward : List Comparison :=
  [.lt, .lte, .eq]

theorem holds_compare_iff {op : Comparison} :
    (Constraint.compare op b).holds a = true ↔
      ∃ o, a.compare? b = some o ∧ op.accepts o = true := by
  rw [Constraint.holds, Option.any_eq_true]

theorem isLE_of_accepts {op : Comparison} (hop : op ∈ upward) (h : op.accepts o = true) :
    o.isLE ∧ (op = .lt → o = .lt) := by
  simp only [upward, List.mem_cons, List.not_mem_nil, or_false] at hop
  rcases hop with rfl | rfl | rfl <;> cases o <;> simp_all [Comparison.accepts]

/-- The order within a family is transitive but for cycles of rounding. Two steps upwards lead to a
value that is related to the first, and upwards, and to an equal one only if both steps do: exactly
unless the three are two integers and a double between which rounding makes a cycle. So a bound that
is itself within a bound never contradicts it, outside these cycles. -/
theorem ascending_chain (a b c : Value) :
    (∀ o o', a.compare? b = some o → b.compare? c = some o' → o.isLE → o'.isLE →
      ∃ u, a.compare? c = some u ∧
        ((u.isLE ∧ (u = .eq → o = .eq ∧ o' = .eq)) ↔ ¬Cycle a b c)) ∧
    (¬Cycle a b c → ∀ p ∈ upward, ∀ q ∈ upward,
      (Constraint.compare p b).holds a = true → (Constraint.compare q c).holds b = true →
        (Constraint.compare .lte c).holds a = true ∧
          (p = .lt ∨ q = .lt → (Constraint.compare .lt c).holds a = true)) := by
  refine ⟨fun o o' hab hbc ho ho' => compare?_chain hab hbc ho ho', ?_⟩
  intro hcycle p hp q hq hab hbc
  obtain ⟨o, hab, ho⟩ := holds_compare_iff.1 hab
  obtain ⟨o', hbc, ho'⟩ := holds_compare_iff.1 hbc
  obtain ⟨hle, hlt⟩ := isLE_of_accepts hp ho
  obtain ⟨hle', hlt'⟩ := isLE_of_accepts hq ho'
  obtain ⟨u, hac, hcomposes⟩ := compare?_chain hab hbc hle hle'
  obtain ⟨hu, hequal⟩ := hcomposes.2 hcycle
  refine ⟨holds_compare_iff.2 ⟨u, hac, ?_⟩, fun hstrict => holds_compare_iff.2 ⟨u, hac, ?_⟩⟩
  · cases u <;> simp_all [Comparison.accepts]
  · have hne : u ≠ .eq := by
      intro heq
      obtain ⟨rfl, rfl⟩ := hequal heq
      rcases hstrict with h | h
      · exact nomatch hlt h
      · exact nomatch hlt' h
    cases u <;> simp_all [Comparison.accepts]

/-- An integer, a double above it, and a greater integer that is rounded to that double. -/
theorem ascending_chain_rounded :
    let a := Value.int 9007199254740991
    let b := Value.float ⟨0x4340000000000000⟩
    let c := Value.int 9007199254740993
    a.compare? b = some .lt ∧ b.compare? c = some .eq ∧ a.compare? c = some .lt ∧
      (Constraint.compare .lt c).holds a = true := by
  intro a b c
  have hab : a.compare? b = some .lt := by decide +kernel
  have hbc : b.compare? c = some .eq := by decide +kernel
  have hcycle : ¬Cycle (.int 9007199254740991) (.float ⟨0x4340000000000000⟩)
      (.int 9007199254740993) := by
    intro h
    cases h with
    | high hblurs => exact absurd hblurs.lt (by decide)
  obtain ⟨hchain, hbounds⟩ := ascending_chain a b c
  obtain ⟨u, hac, hu⟩ := hchain .lt .eq hab hbc rfl rfl
  obtain ⟨hle, hequal⟩ := hu.2 hcycle
  have hlt : u = .lt := by
    cases u with
    | lt => rfl
    | eq => exact nomatch (hequal rfl).1
    | gt => exact nomatch hle
  obtain ⟨-, hbound⟩ := hbounds hcycle .lt (.head _) .eq (.tail _ (.tail _ (.head _)))
    (holds_compare_iff.2 ⟨_, hab, rfl⟩) (holds_compare_iff.2 ⟨_, hbc, rfl⟩)
  exact ⟨hab, hbc, hlt ▸ hac, hbound (.inl rfl)⟩

/-- Two integers that are rounded to one double. The greater is equal to the double and the double
to the lesser; the lesser is below the greater and equal to what that is equal to. -/
theorem rounding_makes_cycle :
    let m := Value.int 9007199254740992
    let n := Value.int 9007199254740993
    let x := Value.float ⟨0x4340000000000000⟩
    (n.compare? x = some .eq ∧ x.compare? m = some .eq ∧ n.compare? m = some .gt) ∧
      (m.compare? n = some .lt ∧ n.compare? x = some .eq ∧ m.compare? x = some .eq) ∧
      ((Constraint.compare .eq x).holds n = true ∧ (Constraint.compare .eq m).holds x = true ∧
        (Constraint.compare .lte m).holds n = false) ∧
      ¬∀ (a b c : Value) (o o' : Ordering), a.compare? b = some o → b.compare? c = some o' →
        o.isLE → o'.isLE →
          ∃ u, a.compare? c = some u ∧ u.isLE ∧ (u = .eq → o = .eq ∧ o' = .eq) := by
  intro m n x
  have hnx : n.compare? x = some .eq := by decide +kernel
  have hxm : x.compare? m = some .eq := by decide +kernel
  have hnm : n.compare? m = some .gt := by decide +kernel
  refine ⟨⟨hnx, hxm, hnm⟩, by decide +kernel, by decide +kernel, fun hall => ?_⟩
  obtain ⟨u, hu, hle, -⟩ := hall n x m .eq .eq hnx hxm rfl rfl
  obtain rfl : Ordering.gt = u := Option.some.inj (hnm.symm.trans hu)
  exact nomatch hle

end Value

end GraphQuery
