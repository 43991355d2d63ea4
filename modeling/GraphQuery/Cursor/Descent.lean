/-!
# Descents

Loops over a cursor end because each find takes the cursor's state strictly down in a well-founded
order, and nothing takes it up. A descent is such an order; the descents of composite states are
built from those of their parts.
-/

namespace GraphQuery

/-- A quasi-order with a well-founded strict part. -/
structure Descent (σ : Type) where
  lt : σ → σ → Prop
  le : σ → σ → Prop
  wf : WellFounded lt
  refl : ∀ a, le a a
  trans : ∀ {a b c}, le a b → le b c → le a c
  le_of_lt : ∀ {a b}, lt a b → le a b
  lt_of_lt_of_le : ∀ {a b c}, lt a b → le b c → lt a c
  lt_of_le_of_lt : ∀ {a b c}, le a b → lt b c → lt a c

namespace Descent

/-- The order of the natural numbers. -/
def nat : Descent Nat where
  lt := (· < ·)
  le := (· ≤ ·)
  wf := Nat.lt_wfRel.wf
  refl := Nat.le_refl
  trans := Nat.le_trans
  le_of_lt := Nat.le_of_lt
  lt_of_lt_of_le := Nat.lt_of_lt_of_le
  lt_of_le_of_lt := Nat.lt_of_le_of_lt

/-- The order in which nothing is strictly below anything. -/
def flat (σ : Type) : Descent σ where
  lt _ _ := False
  le _ _ := True
  wf := ⟨fun _ => ⟨_, fun _ h => h.elim⟩⟩
  refl _ := trivial
  trans _ _ := trivial
  le_of_lt _ := trivial
  lt_of_lt_of_le h _ := h
  lt_of_le_of_lt _ h := h

/-- The order of a part of the state. -/
def comap {σ τ : Type} (d : Descent τ) (f : σ → τ) : Descent σ where
  lt a b := d.lt (f a) (f b)
  le a b := d.le (f a) (f b)
  wf := InvImage.wf f d.wf
  refl _ := d.refl _
  trans := d.trans
  le_of_lt := d.le_of_lt
  lt_of_lt_of_le := d.lt_of_lt_of_le
  lt_of_le_of_lt := d.lt_of_le_of_lt

/-- Down in the first part, or not up in it and down in the second. -/
def lexLt {σ τ : Type} (d : Descent σ) (e : Descent τ) (a b : σ × τ) : Prop :=
  d.lt a.1 b.1 ∨ (d.le a.1 b.1 ∧ e.lt a.2 b.2)

theorem acc_lexLt {σ τ : Type} (d : Descent σ) (e : Descent τ) (x : σ) :
    ∀ x', d.le x' x → ∀ y, Acc (lexLt d e) (x', y) := by
  induction d.wf.apply x with
  | intro x _ ihx =>
      intro x' hx y
      induction e.wf.apply y generalizing x' with
      | intro y _ ihy =>
          refine ⟨_, fun p hp => ?_⟩
          rcases hp with hp | ⟨hle, hlt⟩
          · exact ihx p.1 (d.lt_of_lt_of_le hp hx) p.1 (d.refl _) p.2
          · exact ihy p.2 hlt p.1 (d.trans hle hx)

/-- The first part counts first. -/
def lex {σ τ : Type} (d : Descent σ) (e : Descent τ) : Descent (σ × τ) where
  lt := lexLt d e
  le a b := d.lt a.1 b.1 ∨ (d.le a.1 b.1 ∧ e.le a.2 b.2)
  wf := ⟨fun p => acc_lexLt d e p.1 p.1 (d.refl _) p.2⟩
  refl _ := .inr ⟨d.refl _, e.refl _⟩
  trans := by
    rintro a b c (h | ⟨h, h'⟩) (k | ⟨k, k'⟩)
    · exact .inl (d.lt_of_lt_of_le h (d.le_of_lt k))
    · exact .inl (d.lt_of_lt_of_le h k)
    · exact .inl (d.lt_of_le_of_lt h k)
    · exact .inr ⟨d.trans h k, e.trans h' k'⟩
  le_of_lt := by
    rintro a b (h | ⟨h, h'⟩)
    · exact .inl h
    · exact .inr ⟨h, e.le_of_lt h'⟩
  lt_of_lt_of_le := by
    rintro a b c (h | ⟨h, h'⟩) (k | ⟨k, k'⟩)
    · exact .inl (d.lt_of_lt_of_le h (d.le_of_lt k))
    · exact .inl (d.lt_of_lt_of_le h k)
    · exact .inl (d.lt_of_le_of_lt h k)
    · exact .inr ⟨d.trans h k, e.lt_of_lt_of_le h' k'⟩
  lt_of_le_of_lt := by
    rintro a b c (h | ⟨h, h'⟩) (k | ⟨k, k'⟩)
    · exact .inl (d.lt_of_lt_of_le h (d.le_of_lt k))
    · exact .inl (d.lt_of_lt_of_le h k)
    · exact .inl (d.lt_of_le_of_lt h k)
    · exact .inr ⟨d.trans h k, e.lt_of_le_of_lt h' k'⟩

/-! ## States on one of two sides -/

/-- The right side is below the left; within a side its own order counts. -/
def sumRel {σ τ : Type} (r : σ → σ → Prop) (q : τ → τ → Prop) : σ ⊕ τ → σ ⊕ τ → Prop
  | .inl a, .inl b => r a b
  | .inr _, .inl _ => True
  | .inr a, .inr b => q a b
  | .inl _, .inr _ => False

theorem wf_sumRel {σ τ : Type} (d : Descent σ) (e : Descent τ) :
    WellFounded (sumRel d.lt e.lt) := by
  have right : ∀ y, Acc (sumRel d.lt e.lt) (.inr y) := by
    intro y
    induction e.wf.apply y with
    | intro y _ ih =>
        refine ⟨_, fun p hp => ?_⟩
        cases p with
        | inl _ => exact hp.elim
        | inr z => exact ih z hp
  refine ⟨fun p => ?_⟩
  cases p with
  | inr y => exact right y
  | inl x =>
      induction d.wf.apply x with
      | intro x _ ih =>
          refine ⟨_, fun p hp => ?_⟩
          cases p with
          | inl z => exact ih z hp
          | inr z => exact right z

/-- States that move from the left side to the right and never back. -/
def sum {σ τ : Type} (d : Descent σ) (e : Descent τ) : Descent (σ ⊕ τ) where
  lt := sumRel d.lt e.lt
  le := sumRel d.le e.le
  wf := wf_sumRel d e
  refl
    | .inl a => d.refl a
    | .inr a => e.refl a
  trans := by
    rintro (a | a) (b | b) (c | c) h k <;> simp_all only [sumRel]
    · exact d.trans h k
    · exact e.trans h k
  le_of_lt := by
    rintro (a | a) (b | b) h <;> simp_all only [sumRel]
    · exact d.le_of_lt h
    · exact e.le_of_lt h
  lt_of_lt_of_le := by
    rintro (a | a) (b | b) (c | c) h k <;> simp_all only [sumRel]
    · exact d.lt_of_lt_of_le h k
    · exact e.lt_of_lt_of_le h k
  lt_of_le_of_lt := by
    rintro (a | a) (b | b) (c | c) h k <;> simp_all only [sumRel]
    · exact d.lt_of_le_of_lt h k
    · exact e.lt_of_le_of_lt h k

end Descent

end GraphQuery
