import GraphQuery.Plan
import Mathlib.Logic.Basic

/-!
# What plans may hold

An allowance says which limits, callbacks and literal handles may occur in a plan, at whatever
depth.
-/

namespace GraphQuery

/-- Which limits, callbacks and literal handles a plan may hold. -/
structure Allowance where
  limit : Nat → Prop
  test : ValueTest → Prop
  map : ValueMap → Prop
  literal : Handle → Prop

structure Allowance.Le (A B : Allowance) : Prop where
  limit : ∀ n, A.limit n → B.limit n
  test : ∀ test, A.test test → B.test test
  map : ∀ f, A.map f → B.map f
  literal : ∀ h, A.literal h → B.literal h

def Allowance.anything : Allowance :=
  ⟨fun _ => True, fun _ => True, fun _ => True, fun _ => True⟩

namespace Plan

mutual

/-- The plan, with its operands and morphisms, holds only what is allowed. -/
def Within (A : Allowance) : Plan → Prop
  | .fixed handles => ∀ h ∈ handles.toList, A.literal h
  | .null | .all | .input => True
  | .and operands _ | .or operands => WithinAll A operands
  | .not forbidden whole => Within A forbidden ∧ Within A whole
  | .unique p | .save p _ | .skip p _ | .sort p | .constraint p _ => Within A p
  | .limit p n => A.limit n ∧ Within A p
  | .step source _ _ via _ labels =>
      Within A source ∧ WithinOption A via ∧ WithinOption A labels
  | .filter p test => A.test test ∧ Within A p
  | .map p f => A.map f ∧ Within A p
  | .recursive p morphism _ _ _ => Within A p ∧ Within A morphism

def WithinAll (A : Allowance) : List Plan → Prop
  | [] => True
  | p :: ps => Within A p ∧ WithinAll A ps

def WithinOption (A : Allowance) : Option Plan → Prop
  | none => True
  | some p => Within A p

end

mutual

theorem Within.mono {A B : Allowance} (hAB : A.Le B) : ∀ p : Plan, p.Within A → p.Within B
  | .fixed _, hp => fun h hm => hAB.literal h (hp h hm)
  | .null, _ | .all, _ | .input, _ => trivial
  | .and operands _, hp | .or operands, hp => WithinAll.mono hAB operands hp
  | .not forbidden whole, hp => ⟨Within.mono hAB forbidden hp.1, Within.mono hAB whole hp.2⟩
  | .unique p, hp | .save p _, hp | .skip p _, hp | .sort p, hp | .constraint p _, hp =>
      Within.mono hAB p hp
  | .limit p n, hp => ⟨hAB.limit n hp.1, Within.mono hAB p hp.2⟩
  | .step source _ _ via _ labels, hp =>
      ⟨Within.mono hAB source hp.1, WithinOption.mono hAB via hp.2.1,
        WithinOption.mono hAB labels hp.2.2⟩
  | .filter p test, hp => ⟨hAB.test test hp.1, Within.mono hAB p hp.2⟩
  | .map p f, hp => ⟨hAB.map f hp.1, Within.mono hAB p hp.2⟩
  | .recursive p morphism _ _ _, hp => ⟨Within.mono hAB p hp.1, Within.mono hAB morphism hp.2⟩

theorem WithinAll.mono {A B : Allowance} (hAB : A.Le B) :
    ∀ ps : List Plan, WithinAll A ps → WithinAll B ps
  | [], _ => trivial
  | p :: ps, hp => ⟨Within.mono hAB p hp.1, WithinAll.mono hAB ps hp.2⟩

theorem WithinOption.mono {A B : Allowance} (hAB : A.Le B) :
    ∀ p : Option Plan, WithinOption A p → WithinOption B p
  | none, _ => trivial
  | some p, hp => Within.mono hAB p hp

end

mutual

theorem within_anything : ∀ p : Plan, p.Within .anything
  | .fixed _ => fun _ _ => trivial
  | .null | .all | .input => trivial
  | .and ps _ | .or ps => withinAll_anything ps
  | .not forbidden whole => ⟨within_anything forbidden, within_anything whole⟩
  | .unique p | .save p _ | .skip p _ | .sort p | .constraint p _ => within_anything p
  | .limit p _ | .filter p _ | .map p _ => ⟨trivial, within_anything p⟩
  | .recursive p morphism _ _ _ => ⟨within_anything p, within_anything morphism⟩
  | .step source _ _ via _ labels =>
      ⟨within_anything source, withinOption_anything via, withinOption_anything labels⟩

theorem withinAll_anything : ∀ ps : List Plan, WithinAll .anything ps
  | [] => trivial
  | p :: ps => ⟨within_anything p, withinAll_anything ps⟩

theorem withinOption_anything : ∀ p : Option Plan, WithinOption .anything p
  | none => trivial
  | some p => within_anything p

end

variable {A : Allowance}

theorem withinAll_iff {ps : List Plan} : WithinAll A ps ↔ ∀ p ∈ ps, p.Within A := by
  induction ps with
  | nil => simp [WithinAll]
  | cons p ps ih => simp [WithinAll, ih]

theorem withinOption_iff {p : Option Plan} : WithinOption A p ↔ ∀ q ∈ p, q.Within A := by
  cases p <;> simp [WithinOption]

/-- A property that a plan has if and only if its operands have it. Of literal sets and constraints,
and of operators that hold a count, a callback or a morphism, nothing is asked. -/
structure Inherited (P : Plan → Prop) : Prop where
  null : P .null
  all : P .all
  and : ∀ {operands primary}, P (.and operands primary) ↔ ∀ p ∈ operands, P p
  or : ∀ {operands}, P (.or operands) ↔ ∀ p ∈ operands, P p
  not : ∀ {forbidden whole}, P (.not forbidden whole) ↔ P forbidden ∧ P whole
  unique : ∀ {p}, P (.unique p) ↔ P p
  save : ∀ {p names}, P (.save p names) ↔ P p
  sort : ∀ {p}, P (.sort p) ↔ P p
  step : ∀ {source fromEnd toEnd via names labels},
    P (.step source fromEnd toEnd via names labels) ↔
      P source ∧ (∀ p ∈ via, P p) ∧ ∀ p ∈ labels, P p

/-- An inherited property that parts of literal sets keep, and that constraints inherit too. -/
structure Selective (P : Plan → Prop) : Prop extends Inherited P where
  fixed : ∀ handles keep, P (.fixed handles) → P (.fixed (handles.filter keep))
  constraint : ∀ {p cs}, P (.constraint p cs) ↔ P p

/-- A selective property that skips inherit too, whatever their counts. -/
structure Hereditary (P : Plan → Prop) : Prop extends Selective P where
  skip : ∀ {p n}, P (.skip p n) ↔ P p

theorem Inherited.inter {P Q : Plan → Prop} (hP : Inherited P) (hQ : Inherited Q) :
    Inherited fun p => P p ∧ Q p where
  null := ⟨hP.null, hQ.null⟩
  all := ⟨hP.all, hQ.all⟩
  and := (and_congr hP.and hQ.and).trans forall₂_and.symm
  or := (and_congr hP.or hQ.or).trans forall₂_and.symm
  not := (and_congr hP.not hQ.not).trans and_and_and_comm
  unique := and_congr hP.unique hQ.unique
  save := and_congr hP.save hQ.save
  sort := and_congr hP.sort hQ.sort
  step := by
    intros
    rw [hP.step, hQ.step, forall₂_and, forall₂_and]
    exact and_and_and_comm.trans (and_congr .rfl and_and_and_comm)

theorem Inherited.imp (condition : Prop) {P : Plan → Prop} (hP : Inherited P) :
    Inherited fun p => condition → P p where
  null _ := hP.null
  all _ := hP.all
  and := (imp_congr_right fun _ => hP.and).trans
    ⟨fun h p hp hc => h hc p hp, fun h hc p hp => h p hp hc⟩
  or := (imp_congr_right fun _ => hP.or).trans
    ⟨fun h p hp hc => h hc p hp, fun h hc p hp => h p hp hc⟩
  not := (imp_congr_right fun _ => hP.not).trans forall_and
  unique := imp_congr_right fun _ => hP.unique
  save := imp_congr_right fun _ => hP.save
  sort := imp_congr_right fun _ => hP.sort
  step := (imp_congr_right fun _ => hP.step).trans
    ⟨fun h => ⟨fun hc => (h hc).1, fun p hp hc => (h hc).2.1 p hp,
      fun p hp hc => (h hc).2.2 p hp⟩,
      fun h hc => ⟨h.1 hc, fun p hp => h.2.1 p hp hc, fun p hp => h.2.2 p hp hc⟩⟩

theorem Selective.inter {P Q : Plan → Prop} (hP : Selective P) (hQ : Selective Q) :
    Selective fun p => P p ∧ Q p where
  toInherited := hP.toInherited.inter hQ.toInherited
  fixed handles keep hp := ⟨hP.fixed handles keep hp.1, hQ.fixed handles keep hp.2⟩
  constraint := and_congr hP.constraint hQ.constraint

theorem Hereditary.inter {P Q : Plan → Prop} (hP : Hereditary P) (hQ : Hereditary Q) :
    Hereditary fun p => P p ∧ Q p where
  toSelective := hP.toSelective.inter hQ.toSelective
  skip := and_congr hP.skip hQ.skip

theorem hereditary_within (A : Allowance) : Hereditary (Within A) where
  null := trivial
  all := trivial
  fixed _ _ hp := fun h hm => hp h (List.mem_filter.1 hm).1
  and := withinAll_iff
  or := withinAll_iff
  not := .rfl
  unique := .rfl
  save := .rfl
  skip := .rfl
  sort := .rfl
  constraint := .rfl
  step := and_congr .rfl (and_congr withinOption_iff withinOption_iff)

end Plan

end GraphQuery
