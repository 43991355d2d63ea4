import GraphQuery.Proofs.Optimize.Tidy
import GraphQuery.Proofs.Path.Within
import GraphQuery.Proofs.Soundness.Compound

/-!
# Sound plans

A plan whose literal handles are known is scanned and probed soundly, whatever its callbacks do. The
plan of a path has no other literals than the handles that the store gives to values, and no pass of
simplification adds any.
-/

namespace GraphQuery

variable {known : Handle → Prop} {store : QuadStore}

def Allowance.knowing (known : Handle → Prop) : Allowance where
  limit _ := True
  test _ := True
  map _ := True
  literal := known

namespace Plan

mutual

/-- A plan is sound if what stands in its hole is. -/
theorem sound_on (hk : store.Grounds known) {hole : Roles} (hh : hole.Sound known) :
    ∀ p : Plan, p.Within (.knowing known) → (p.rolesOn store hole).Sound known
  | .fixed _, hp => Roles.sound_ofHandles hp
  | .null, _ => Roles.sound_null
  | .all, _ => Roles.sound_nodes hk
  | .input, _ => hh
  | .and operands primary, hp =>
      Roles.sound_join (sound_all hk hh operands hp) (driver operands primary)
  | .or operands, hp => Roles.sound_union (sound_all hk hh operands hp)
  | .not forbidden whole, hp =>
      (sound_on hk hh whole hp.2).without (sound_on hk hh forbidden hp.1)
  | .unique p, hp => Roles.sound_ofScanner (sound_on hk hh p hp).scanner.firsts
  | .save p names, hp => (sound_on hk hh p hp).naming names
  | .limit p n, hp => by
      have hR := sound_on hk hh p hp.2
      refine ⟨hR.scanner.limit n, ?_⟩
      show (if n = 0 then _ else _ : Index).Sound known
      split
      · exact hR.index
      · exact (hR.scanner.limit n).recorded
  | .skip p n, hp => by
      have hR := sound_on hk hh p hp
      refine ⟨hR.scanner.skip n, ?_⟩
      show (if n = 0 then _ else _ : Index).Sound known
      split
      · exact hR.index
      · exact (hR.scanner.skip n).recorded
  | .sort p, hp => ⟨(sound_on hk hh p hp).scanner.sorted hk, (sound_on hk hh p hp).index⟩
  | .step source _ _ via _ labels, hp =>
      (sound_on hk hh source hp.1).step hk
        ⟨sound_option hk hh via hp.2.1, sound_option hk hh labels hp.2.2⟩
  | .filter p test, hp => (sound_on hk hh p hp.2).testing hk test
  | .map p f, hp => Roles.sound_ofScanner ((sound_on hk hh p hp.2).scanner.mapped hk f)
  | .constraint p cs, hp => (sound_on hk hh p hp).testing hk fun v => .ok (cs.all (·.holds v))
  | .recursive p morphism _ _ _, hp =>
      Roles.sound_ofScanner ((sound_on hk hh p hp.1).scanner.closure hk fun _ hR =>
        sound_on hk hR morphism hp.2)

theorem sound_all (hk : store.Grounds known) {hole : Roles} (hh : hole.Sound known) :
    ∀ ps : List Plan, WithinAll (.knowing known) ps →
      ∀ R ∈ rolesOfAll store hole ps, R.Sound known
  | [], _, R, hR => by simp [rolesOfAll] at hR
  | p :: ps, hp, R, hR => by
      rcases List.mem_cons.1 hR with rfl | hR
      · exact sound_on hk hh p hp.1
      · exact sound_all hk hh ps hp.2 R hR

theorem sound_option (hk : store.Grounds known) {hole : Roles} (hh : hole.Sound known) :
    ∀ p : Option Plan, WithinOption (.knowing known) p →
      ∀ I ∈ (rolesOfOption store hole p).map Roles.index, I.Sound known
  | none, _, I, hI => by simp [rolesOfOption] at hI
  | some p, hp, I, hI => by
      obtain rfl : (rolesOn store hole p).index = I := by simpa [rolesOfOption] using hI
      exact (sound_on hk hh p hp).index

end

theorem sound (hk : store.Grounds known) {p : Plan} (hp : p.Within (.knowing known)) :
    (p.roles store).Sound known :=
  sound_on hk Roles.sound_null p hp

/-- Simplification fails when it is interrupted or does not come to an end. -/
theorem not_misuse_of_passesLeft {passes : Nat} : ∀ {left : Nat} {p : Plan} {t t' : Token}
    {e : QueryError}, passesLeft store passes left p t = (.error e, t') → e.isMisuse = false
  | 0, _, _, _, _, h => by
      cases h
      rfl
  | left + 1, p, t, t', e, h => by
      rw [passesLeft_succ] at h
      split at h
      · cases h
        exact Token.not_misuse_of_check ‹_›
      · split at h
        · exact not_misuse_of_passesLeft h
        · cases h

end Plan

/-! ## Paths -/

mutual

/-- A path holds values and no handles, so nothing that it may hold is left to be known. -/
theorem Path.within_knowing (known : Handle → Prop) : ∀ p : Path, p.Within (.knowing known)
  | .mk _ ops => Path.opsWithin_knowing known ops

theorem Path.opsWithin_knowing (known : Handle → Prop) :
    ∀ ops : List Op, Path.OpsWithin (.knowing known) ops
  | [] => trivial
  | op :: ops => ⟨Op.within_knowing known op, Path.opsWithin_knowing known ops⟩

theorem Op.within_knowing (known : Handle → Prop) : ∀ op : Op, op.Within (.knowing known)
  | .outgoing via _ | .incoming via _ | .both via _ | .has via _ _ | .labelContext via _ =>
      Via.within_knowing known via
  | .and p | .or p | .except p | .follow p _ | .followRecursive p _ _ =>
      Path.within_knowing known p
  | .limit _ | .filter _ | .map _ | .is _ | .unique | .skip _ | .order | .tag _ | .constrain _
  | .inPredicates | .outPredicates | .labels => trivial

theorem Via.within_knowing (known : Handle → Prop) : ∀ via : Via, via.Within (.knowing known)
  | .all | .values _ => trivial
  | .path p => Path.within_knowing known p

end

theorem Path.compile_knowing (hk : store.Grounds known) (p : Path) (bindings : ClosureBindings) :
    (p.compile store bindings).Within (.knowing known) :=
  within_compile hk.intern (p.within_knowing known) bindings

end GraphQuery
