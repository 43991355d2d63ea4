import GraphQuery.Proofs.Lifecycle.Alternates

/-!
# Turns that find nothing

Past the last binding set a scanner may be turned again and again: a turn that finds nothing changes
nothing.
-/

namespace GraphQuery

namespace Cursor

variable {C : Cursor}

/-- A turn that finds nothing changes nothing. -/
def Idles (C : Cursor) : Prop :=
  ∀ s t, (C.nextPath s t).answer = .nothing → (C.nextPath s t).state = s

theorem Idles.of_turn (hturn : ∀ b t, (C.turn b t).answer = .nothing → (C.turn b t).state = b) :
    C.Idles := by
  intro s t hn
  unfold nextPath at hn ⊢
  split
  · rw [if_pos ‹_›] at hn
    unfold Guarded.attempt at hn ⊢
    split
    · simp_all
    · dsimp only at hn ⊢
      split <;> simp_all
  · rfl

theorem idles_listing {ρ : Type} (start : ρ) (canTurn : Listing ρ → Bool)
    (release : Listing ρ → Listing ρ) : (Cursor.listing start canTurn release).Idles :=
  .of_turn fun _ _ hn => Listing.state_turn (congrArg Answer.isFound hn)

theorem idles_combining {ρ : Type} (sources : ρ) (close : ρ → ρ) :
    (Cursor.combining sources close).Idles :=
  .of_turn fun _ _ hn => Combining.state_turn (congrArg Answer.isFound hn)

/-- A cursor that turns by turning one that it holds does what that one does. -/
theorem Idles.wrap {D : Cursor} (hC : C.Idles) (inner : D.Body → C.State)
    (hanswer : ∀ b t, (D.turn b t).answer = (C.nextPath (inner b) t).answer)
    (hstate : ∀ b t, (C.nextPath (inner b) t).answer = .nothing →
      (C.nextPath (inner b) t).state = inner b → (D.turn b t).state = b) : D.Idles :=
  .of_turn fun b t hn =>
    have hnothing := (hanswer b t).symm.trans hn
    hstate b t hnothing (hC (inner b) t hnothing)

theorem Idles.beside (hC : C.Idles) {κ : Type} (memory : κ) (forget : κ → κ) :
    (C.beside memory forget).Idles :=
  hC.wrap (D := C.beside memory forget) Prod.fst (fun _ _ => rfl)
    fun b _ _ hs => congrArg (fun s => (s, b.2)) hs

theorem Idles.naming (hC : C.Idles) (names : List String) : (C.naming names).Idles :=
  hC.wrap (D := C.naming names) id (fun _ _ => rfl) fun _ _ _ hs => hs

end Cursor

/-! ## Scanners -/

theorem BranchState.idles_turn : ∀ {Ss : List Scanner}, (∀ S ∈ Ss, S.Idles) →
    ∀ (b : BranchState Ss) t, (turn Ss b t).answer = .nothing → (turn Ss b t).state = b
  | [], _, _, _, _ => rfl
  | S :: _, hSs, .inl s, t, hn => congrArg Sum.inl (hSs S (.head _) s t hn)
  | _ :: _, hSs, .inr b, t, hn =>
      congrArg Sum.inr (idles_turn (fun S hS => hSs S (.tail _ hS)) b t hn)

namespace Scanner

variable {S : Scanner}

theorem idles_limit (hS : S.Idles) (n : Nat) : (S.limit n).Idles :=
  hS.wrap (D := (S.limit n).toCursor) Counted.source (fun _ _ => rfl) fun b t hn hs => by
    show (⟨_, if (S.nextPath b.source t).answer.isFound then _ else b.count⟩ : Counted S) = b
    rw [hs, hn]
    rfl

theorem idles_skip (hS : S.Idles) (n : Nat) : (S.skip n).Idles :=
  hS.wrap (D := (S.skip n).toCursor) Counted.source (fun _ _ => rfl)
    fun b _ _ hs => congrArg (fun s => ({ b with source := s } : Counted S)) hs

theorem idles_mapped (hS : S.Idles) (store : QuadStore) (f : Value → Except String Value) :
    (S.mapped store f).Idles :=
  hS.wrap (D := (S.mapped store f).toCursor) MappedPlace.source (fun _ _ => rfl)
    fun b _ _ hs => congrArg (fun s => ({ b with source := s } : MappedPlace S)) hs

end Scanner

namespace Plan

variable {store : QuadStore}

mutual

/-- The scanners of all plans bear being turned past their last binding set. -/
theorem idles_on {hole : Roles} (hh : hole.scanner.Idles) :
    ∀ p : Plan, (p.rolesOn store hole).scanner.Idles
  | .fixed _ | .null | .all => .of_turn fun _ _ _ => rfl
  | .input => hh
  | .and operands primary => by
      show (Roles.join (rolesOfAll store hole operands) (driver operands primary)).scanner.Idles
      unfold Roles.join
      split
      · exact .of_turn fun _ _ _ => rfl
      · simp only [Scanner.join]
        exact Cursor.idles_combining _ _
  | .or operands =>
      .of_turn (BranchState.idles_turn fun S hS => by
        obtain ⟨R, hR, rfl⟩ := List.mem_map.1 hS
        exact idles_all hh operands R hR)
  | .not _ whole => (idles_on hh whole).beside _ _
  | .unique p => (idles_on hh p).beside _ _
  | .save p names => (idles_on hh p).naming names
  | .limit p n => Scanner.idles_limit (idles_on hh p) n
  | .skip p n => Scanner.idles_skip (idles_on hh p) n
  | .sort _ => Cursor.idles_listing _ _ _
  | .step source .. => by
      show ((source.rolesOn store hole).scanner.step _).Idles
      simp only [Scanner.step]
      exact Cursor.idles_combining _ _
  | .filter p _ | .constraint p _ => (idles_on hh p).beside _ _
  | .map p f => Scanner.idles_mapped (idles_on hh p) store f
  | .recursive .. => .of_turn fun _ _ _ => rfl

theorem idles_all {hole : Roles} (hh : hole.scanner.Idles) :
    ∀ ps : List Plan, ∀ R ∈ rolesOfAll store hole ps, R.scanner.Idles
  | [], R, hR => by simp [rolesOfAll] at hR
  | p :: ps, R, hR => by
      rcases List.mem_cons.1 hR with rfl | hR
      · exact idles_on hh p
      · exact idles_all hh ps R hR

end

theorem idles (store : QuadStore) (p : Plan) : (p.roles store).scanner.Idles :=
  idles_on (.of_turn fun _ _ _ => rfl) p

end Plan

end GraphQuery
