import GraphQuery.Plan.Roles
import GraphQuery.Proofs.Interruption.Basic

/-!
# Robust cursors

Each way of building a cursor from others keeps robustness: whatever a part answers when it is
interrupted is a failure, and no way of building takes a failure of a part for an answer.
-/

namespace GraphQuery

variable {S : Scanner} {I : Index} {R : Roles} {Is : List Index} {Ss : List Scanner}

/-! ## Leaves -/

theorem Scanner.robust_ofList (handles : List Handle) : (Scanner.ofList handles).Robust where
  turn b := .pure .nothing b
  pull b := by
    simp only [Scanner.ofList]
    split <;> exact .pure _ _

theorem Index.robust_ofMem (mem : Handle → Bool) : (Index.ofMem mem).Robust where
  turn b := .pure .nothing b
  probe h b := by
    simp only [Index.ofMem]
    split <;> exact .pure _ _

theorem Roles.robust_ofHandles (handles : HandleList) : (Roles.ofHandles handles).Robust :=
  ⟨Scanner.robust_ofList _, Index.robust_ofMem _⟩

theorem Roles.robust_null : Roles.null.Robust :=
  ⟨Scanner.robust_ofList _, Index.robust_ofMem _⟩

theorem Roles.robust_nodes (store : QuadStore) : (Roles.nodes store).Robust :=
  ⟨Scanner.robust_ofList _, Index.robust_ofMem _⟩

/-! ## Naming -/

theorem Roles.Robust.naming (hR : R.Robust) (names : List String) : (R.naming names).Robust where
  scanner := ⟨⟨hR.scanner.nextPath⟩, hR.scanner.next⟩
  index := ⟨⟨hR.index.nextPath⟩, fun h => hR.index.contains h⟩

/-! ## Sieves -/

section Sieves

variable {κ : Type} {memory : κ} {forget : κ → κ} {judge : Handle → κ → Token → Outcome Unit κ}

theorem Cursor.Robust.beside {C : Cursor} (hC : C.Robust) (memory : κ) (forget : κ → κ) :
    (C.beside memory forget).Robust :=
  ⟨fun b => (hC.nextPath b.1).inState fun s => (s, b.2)⟩

theorem Scanner.Robust.sieve (hS : S.Robust) (hj : ∀ h k, Interruptible (judge h k)) :
    (S.sieve memory forget judge).Robust where
  toRobust := hS.toRobust.beside memory forget
  pull b := hS.sift (fun h k => (hj h k).mapValue _) b.1 b.2

theorem Index.Robust.sieve (hI : I.Robust) (hj : ∀ h k, Interruptible (judge h k)) :
    (I.sieve memory forget judge).Robust where
  toRobust := hI.toRobust.beside memory forget
  probe h b := by
    simp only [Index.sieve]
    refine (hj h b.2).andThen fun _ _ => ?_
    exact (hI.contains h b.1).inState _

theorem interruptible_judging (verdict : Handle → Answer Unit) (h : Handle) (x : Unit) :
    Interruptible (judging verdict h x) :=
  .pure (verdict h) x

theorem Roles.Robust.testing (hR : R.Robust) (store : QuadStore)
    (test : Value → Except String Bool) : (R.testing store test).Robust where
  scanner := hR.scanner.sieve (interruptible_judging _)
  index := hR.index.sieve (interruptible_judging _)

/-- An index that is interrupted does not accept by silence. -/
theorem Index.Robust.forbid (hI : I.Robust) (h : Handle) (s : I.State) :
    Interruptible (I.forbid h s) := by
  refine Interruptible.congr ((hI.contains h s).either (fun _ s t => ⟨.nothing, s, t⟩)
    (fun s t => ⟨.found (), s, t⟩) (fun _ s => s) (fun _ _ => .pure .nothing _)
    (.pure (.found ()) _)) fun t => ?_
  dsimp only [Index.forbid, Outcome.either]
  cases (I.contains h s t).answer <;> rfl

theorem Roles.Robust.without {whole forbidden : Roles} (hw : whole.Robust)
    (hf : forbidden.Robust) : (whole.without forbidden).Robust where
  scanner := hw.scanner.sieve hf.index.forbid
  index := hw.index.sieve hf.index.forbid

theorem Scanner.Robust.firsts (hS : S.Robust) : S.firsts.Robust :=
  hS.sieve fun h seen => by
    unfold acceptNew
    split <;> exact .pure _ _

end Sieves

/-! ## Paging -/

theorem Scanner.Robust.limit (hS : S.Robust) (n : Nat) : (S.limit n).Robust where
  turn b := (hS.nextPath b.source).bind (k := fun a s t =>
    (⟨a, ⟨s, if a.isFound then b.count + 1 else b.count⟩, t⟩ : Outcome Unit (Counted S)))
    (fun _ _ _ => rfl) (.pure _ _)
  pull b := (hS.next b.source).bind (k := fun a s t =>
    (⟨a, ⟨s, if a.isFound then b.count + 1 else b.count⟩, t⟩ : Outcome Handle (Counted S)))
    (fun _ _ _ => rfl) (.pure _ _)

theorem Scanner.Robust.advancePast (hS : S.Robust) :
    ∀ (n : Nat) (s : S.State), Interruptible (S.advancePast n s)
  | 0, s => (hS.next s).inState _
  | n + 1, s => (hS.next s).andThen fun _ _ => (hS.advancePast n _).check

theorem Scanner.Robust.skip (hS : S.Robust) (n : Nat) : (S.skip n).Robust where
  turn b := (hS.nextPath b.source).inState fun s => (⟨s, b.count⟩ : Counted S)
  pull b := hS.advancePast b.count b.source

/-! ## Mapped results -/

theorem Scanner.Robust.mapped (hS : S.Robust) (store : QuadStore)
    (f : Value → Except String Value) : (S.mapped store f).Robust where
  turn b := (hS.nextPath b.source).inState fun s => (⟨s, b.current⟩ : MappedPlace S)
  pull b := (hS.sift (fun h x => .pure (imageOf store f h) x) b.source ()).bind
    (k := fun a (s : S.State × Unit) t =>
      (⟨a, ⟨s.1, a.value?⟩, t⟩ : Outcome Handle (MappedPlace S)))
    (fun _ _ _ => rfl) (.pure _ _)

/-! ## Listings -/

theorem Listing.interruptible_turn {ρ : Type} (b : Listing ρ) : Interruptible b.turn := by
  unfold Listing.turn
  split <;> exact .pure _ _

theorem Cursor.robust_listing {ρ : Type} (start : ρ) (canTurn : Listing ρ → Bool)
    (release : Listing ρ → Listing ρ) : (Cursor.listing start canTurn release).Robust :=
  ⟨Listing.interruptible_turn⟩

theorem Scanner.Robust.record (hS : S.Robust) (vet : Handle → Option QueryError) :
    Interruptible (S.record vet) :=
  hS.drain vet S.fresh

/-- An interrupted scan leaves no record to answer from. -/
theorem Scanner.Robust.recorded (hS : S.Robust) : S.recorded.Robust where
  toRobust := Cursor.robust_listing _ _ _
  probe h b := by
    simp only [Scanner.recorded]
    cases b.source with
    | some rows =>
        dsimp only
        split <;> exact .pure _ _
    | none =>
        refine (hS.record _).andThen fun rows _ => ?_
        split <;> exact .pure _ _

theorem interruptible_pullRow (rows : List Row) (b : Listing (Option (List Row))) :
    Interruptible (pullRow rows b) := by
  unfold pullRow
  split <;> exact .pure _ _

theorem Scanner.Robust.sorted (hS : S.Robust) (store : QuadStore) : (S.sorted store).Robust where
  toRobust := Cursor.robust_listing _ _ _
  pull b := by
    show Interruptible (S.pullSorted store b)
    unfold Scanner.pullSorted
    cases b.source with
    | some rows => exact interruptible_pullRow rows b
    | none => exact (hS.record _).andThen fun rows _ => interruptible_pullRow _ b

theorem Roles.robust_ofScanner (hS : S.Robust) : (Roles.ofScanner S).Robust :=
  ⟨hS, hS.recorded⟩

/-! ## Groups -/

namespace GroupState

theorem interruptible_containsAt : ∀ {Is : List Index}, (∀ I ∈ Is, I.Robust) →
    ∀ (i : Nat) (h : Handle) (g : GroupState Is), Interruptible (containsAt Is i h g)
  | [], _, _, _, g => .pure .nothing g
  | _ :: _, hIs, 0, h, (s, _) => ((hIs _ List.mem_cons_self).contains h s).inState _
  | _ :: _, hIs, i + 1, h, (_, g) =>
      (interruptible_containsAt (fun I hI => hIs I (List.mem_cons_of_mem _ hI)) i h g).inState _

theorem interruptible_containsAll (hIs : ∀ I ∈ Is, I.Robust) (h : Handle) :
    ∀ (order : List Nat) (g : GroupState Is), Interruptible (containsAll Is h order g)
  | [], g => .pure (.found ()) g
  | i :: order, g => (interruptible_containsAt hIs i h g).andThen fun _ _ =>
      interruptible_containsAll hIs h order _

theorem interruptible_alternates : ∀ {Is : List Index}, (∀ I ∈ Is, I.Robust) →
    ∀ g : GroupState Is, Interruptible (alternates Is g)
  | [], _, g => .pure (.found []) g
  | _ :: _, hIs, (s, g) => ((hIs _ List.mem_cons_self).alternates s).andThen fun _ _ =>
      ((interruptible_alternates (fun I hI => hIs I (List.mem_cons_of_mem _ hI)) g).mapValue
        _).inState _

theorem interruptible_turnAt : ∀ {Is : List Index}, (∀ I ∈ Is, I.Robust) →
    ∀ (i : Nat) (g : GroupState Is), Interruptible (turnAt Is i g)
  | [], _, _, g => .pure .nothing g
  | _ :: _, hIs, 0, (s, _) => ((hIs _ List.mem_cons_self).nextPath s).inState _
  | _ :: _, hIs, i + 1, (_, g) =>
      (interruptible_turnAt (fun I hI => hIs I (List.mem_cons_of_mem _ hI)) i g).inState _

end GroupState

/-! ## Joins -/

theorem Cursor.robust_combining {ρ : Type} (sources : ρ) (close : ρ → ρ) :
    (Cursor.combining sources close).Robust where
  turn b := by
    show Interruptible b.turn
    unfold Combining.turn
    cases b.combos.advance <;> exact .pure _ _

theorem Scanner.Robust.join (hS : S.Robust) (hIs : ∀ I ∈ Is, I.Robust) (position : Nat) :
    (S.join position Is).Robust where
  toRobust := Cursor.robust_combining _ fun s => (S.close s.1, GroupState.close Is s.2)
  pull b := by
    have hagreed : Interruptible (S.pullAgreed Is b.sources) :=
      hS.sift (fun h g => (GroupState.interruptible_containsAll hIs h _ g).mapValue _) _ _
    have hgather (s : S.State × GroupState Is) : Interruptible (S.gather Is position s) :=
      (hS.alternates s.1).andThen fun _ _ =>
        ((GroupState.interruptible_alternates hIs s.2).mapValue _).inState _
    show Interruptible (S.pullJoined Is position b)
    unfold Scanner.pullJoined
    exact hagreed.andThen fun h _ => (hgather _).andThen fun sets _ => .pure (.found h) _

theorem Index.robust_join (hIs : ∀ I ∈ Is, I.Robust) (first : Nat) :
    (Index.join Is first).Robust where
  toRobust := Cursor.robust_combining _ (GroupState.close Is)
  probe h b := by
    simp only [Index.join]
    refine Interruptible.andThen ((GroupState.interruptible_containsAll hIs h _ b.sources).andThen
      fun _ _ => GroupState.interruptible_alternates hIs _) fun _ _ => ?_
    exact .pure (.found ()) _

theorem Roles.robust_join {Rs : List Roles} (hRs : ∀ R ∈ Rs, R.Robust) (primary : Nat) :
    (Roles.join Rs primary).Robust := by
  have hindex {Qs : List Roles} (hQs : ∀ R ∈ Qs, R ∈ Rs) : ∀ I ∈ Qs.map Roles.index, I.Robust := by
    intro I hI
    obtain ⟨R, hR, rfl⟩ := List.mem_map.1 hI
    exact (hRs R (hQs R hR)).index
  unfold Roles.join
  cases hp : Rs[primary]? with
  | none => exact Roles.robust_null
  | some R =>
      exact ⟨(hRs R (List.mem_of_getElem? hp)).scanner.join
        (hindex fun _ h => List.mem_of_mem_eraseIdx h) primary,
        Index.robust_join (hindex fun _ h => h) _⟩

/-! ## Unions -/

theorem BranchState.interruptible_turn : ∀ {Ss : List Scanner}, (∀ S ∈ Ss, S.Robust) →
    ∀ b : BranchState Ss, Interruptible (turn Ss b)
  | [], _, b => .pure .nothing b
  | _ :: _, hSs, .inl s => ((hSs _ List.mem_cons_self).nextPath s).inState _
  | _ :: _, hSs, .inr b =>
      (interruptible_turn (fun S hS => hSs S (List.mem_cons_of_mem _ hS)) b).inState _

/-- The branches after this one are pulled when it has ended, if the token does not trip. -/
theorem BranchState.pullThen_eq (S : Scanner) {β : Type} (later : β)
    (pullLater : Token → Outcome Handle β) (s : S.State) (t : Token) :
    pullThen S later pullLater s t =
      (S.next s t).either (fun h s t => ⟨.found h, .inl s, t⟩)
        (fun _ t =>
          match t.check with
          | (some e, t) => ⟨.failed e, .inr later, t⟩
          | (none, t) => (pullLater t).inState .inr)
        fun _ s => .inl s := by
  dsimp only [pullThen, Outcome.either]
  cases (S.next s t).answer <;> rfl

/-- An interrupted branch is not taken for one that has ended. -/
theorem BranchState.interruptible_pullThen (hS : S.Robust) {β : Type} (later : β)
    {pullLater : Token → Outcome Handle β} (hl : Interruptible pullLater) (s : S.State) :
    Interruptible (pullThen S later pullLater s) := by
  refine Interruptible.congr ?_ (pullThen_eq S later pullLater s)
  exact (hS.next s).either _ _ _ (fun h _ => .pure (.found h) _) (hl.inState _).check

theorem BranchState.interruptible_pull : ∀ {Ss : List Scanner}, (∀ S ∈ Ss, S.Robust) →
    ∀ b : BranchState Ss, Interruptible (pull Ss b)
  | [], _, b => .pure .nothing b
  | _ :: _, hSs, .inl s =>
      interruptible_pullThen (hSs _ List.mem_cons_self) _
        (interruptible_pull (fun S hS => hSs S (List.mem_cons_of_mem _ hS)) _) s
  | _ :: _, hSs, .inr b =>
      (interruptible_pull (fun S hS => hSs S (List.mem_cons_of_mem _ hS)) b).inState _

theorem Scanner.robust_union (hSs : ∀ S ∈ Ss, S.Robust) : (Scanner.union Ss).Robust where
  turn := BranchState.interruptible_turn hSs
  pull := BranchState.interruptible_pull hSs

theorem Search.interruptible_seek (hIs : ∀ I ∈ Is, I.Robust) (h : Handle) :
    ∀ (count i : Nat) (g : GroupState Is), Interruptible (seek h i count g)
  | 0, _, g => .pure .nothing g
  | count + 1, i, g => by
      refine Interruptible.check (.congr ((GroupState.interruptible_containsAt hIs i h g).either
        (fun _ g t => ⟨.found i, g, t⟩) (seek h (i + 1) count) (fun _ g => g)
        (fun _ _ => .pure (.found i) _) (interruptible_seek hIs h count (i + 1) _)) fun t => ?_)
      dsimp only [Outcome.either]
      cases (GroupState.containsAt Is i h g t).answer <;> rfl

theorem Search.interruptible_moveTo (hIs : ∀ I ∈ Is, I.Robust) (b : Search Is) (h : Handle)
    (i : Nat) (g : GroupState Is) : Interruptible (b.moveTo h i g) :=
  (interruptible_seek hIs h _ i g).bind
    (k := fun a g t =>
      (⟨a.map fun _ => (), ⟨g, b.candidate, a.value?⟩, t⟩ : Outcome Unit (Search Is)))
    (fun _ _ _ => rfl) (.pure _ _)

theorem Search.interruptible_turn (hIs : ∀ I ∈ Is, I.Robust) (b : Search Is) :
    Interruptible b.turn := by
  unfold Search.turn
  split
  · rename_i i h _ _
    refine Interruptible.congr ((GroupState.interruptible_turnAt hIs i b.branches).either
      (fun u g t => ⟨.found u, { b with branches := g }, t⟩) (b.moveTo h (i + 1))
      (fun _ g => { b with branches := g }) (fun u _ => .pure (.found u) _)
      (interruptible_moveTo hIs b h (i + 1) _)) fun t => ?_
    dsimp only [Outcome.either]
    cases (GroupState.turnAt Is i b.branches t).answer <;> rfl
  · exact .pure .nothing b

theorem Index.robust_union (hIs : ∀ I ∈ Is, I.Robust) : (Index.union Is).Robust where
  turn := Search.interruptible_turn hIs
  probe h b := Search.interruptible_moveTo hIs b h 0 b.branches

theorem Roles.robust_union {Rs : List Roles} (hRs : ∀ R ∈ Rs, R.Robust) :
    (Roles.union Rs).Robust where
  scanner := Scanner.robust_union fun S hS => by
    obtain ⟨R, hR, rfl⟩ := List.mem_map.1 hS
    exact (hRs R hR).scanner
  index := Index.robust_union fun I hI => by
    obtain ⟨R, hR, rfl⟩ := List.mem_map.1 hI
    exact (hRs R hR).index

/-! ## Steps -/

theorem OptionalState.interruptible_bindings : ∀ {I : Option Index}, (∀ J ∈ I, J.Robust) →
    ∀ (h : Handle) (s : OptionalState I), Interruptible (bindings I h s)
  | none, _, _, s => .pure (.found []) s
  | some I, hI, h, s => by
      unfold bindings
      exact ((hI I rfl).contains h s).andThen fun _ _ => ((hI I rfl).alternates _).mapValue _

structure QuadTest.Robust (Q : QuadTest) : Prop where
  via : ∀ I ∈ Q.via, I.Robust
  labels : ∀ I ∈ Q.labels, I.Robust

theorem QuadTest.Robust.bindings {Q : QuadTest} (hQ : Q.Robust) (quad : Quad) (s : Q.State) :
    Interruptible (Q.bindings quad s) := by
  have hl (l : OptionalState Q.labels) : Interruptible (Q.labelBindings quad.label l) := by
    unfold QuadTest.labelBindings
    split
    · exact OptionalState.interruptible_bindings hQ.labels _ l
    · exact .pure .nothing l
    · exact .pure (.found []) l
  exact (OptionalState.interruptible_bindings hQ.via _ _).andThen fun _ _ =>
    ((hl s.2).mapValue _).inState _

section Steps

variable {W : Walk}

theorem Walk.interruptible_follow (hW : W.test.Robust) (id : QuadId) (s : W.test.State) :
    Interruptible (W.follow id s) := by
  unfold Walk.follow
  cases W.store.quad id with
  | none => exact .pure .nothing s
  | some quad =>
      dsimp only
      cases quad.at W.toEnd with
      | none => exact .pure .nothing s
      | some target => exact (hW.bindings quad s).mapValue _

theorem Walking.advance_quad {b : Walking S W} {id : QuadId} {quads : List QuadId}
    (hq : b.quads = id :: quads) (t : Token) :
    b.advance t =
      (W.follow id b.test t).either
        (fun r s t => ⟨.found (r.1, b.sets :: r.2), { b with quads, test := s }, t⟩)
        (fun s t =>
          match t.check with
          | (some e, t) => ⟨.failed e, { b with quads, test := s }, t⟩
          | (none, t) => advance { b with quads, test := s } t)
        fun _ s => { b with quads, test := s } := by
  rw [Walking.advance]
  split
  · rename_i id' quads' hq'
    obtain ⟨rfl, rfl⟩ := List.cons.inj (hq.symm.trans hq')
    dsimp only [Outcome.either]
    cases (W.follow id b.test t).answer <;> rfl
  · rename_i hq'
    simp [hq'] at hq

theorem Walking.advance_source {b : Walking S W} (hq : b.quads = []) (t : Token) :
    b.advance t =
      (S.next b.source t).andThen
        (fun h s t => (S.alternates s t).complete.andThen
          (fun sets s t =>
            match t.check with
            | (some e, t) => ⟨.failed e, ⟨s, sets, W.store.quadsWith W.fromEnd h, b.test⟩, t⟩
            | (none, t) => advance ⟨s, sets, W.store.quadsWith W.fromEnd h, b.test⟩ t)
          fun s => { b with source := s })
        fun s => { b with source := s } := by
  rw [Walking.advance]
  split
  · rename_i hq'
    simp [hq'] at hq
  · dsimp only [Outcome.andThen]
    split <;> rename_i hn <;> simp only [hn]
    dsimp only [Run.complete]
    cases (S.alternates (S.next b.source t).state (S.next b.source t).token).error <;> rfl

theorem Walking.interruptible_advance (hS : S.Robust) (hW : W.test.Robust) (b : Walking S W) :
    Interruptible b.advance := by
  induction b using (descent S W).wf.induction with
  | _ b ih =>
      rcases hq : b.quads with _ | ⟨id, quads⟩
      · refine Interruptible.congr ?_ (advance_source hq)
        refine (hS.next b.source).andThen fun h hn => ?_
        refine (hS.alternates _).andThen fun sets _ => (ih _ (.inl ?_)).check
        exact S.order.lt_of_le_of_lt (S.alternates_le _ _) (Scanner.next_lt hn)
      · refine Interruptible.congr ?_ (advance_quad hq)
        refine (Walk.interruptible_follow hW id b.test).either _ _ _
          (fun r _ => .pure (.found (r.1, b.sets :: r.2)) _) ?_
        refine Interruptible.check (ih _ (.inr ⟨S.order.refl _, ?_⟩))
        show quads.length < b.quads.length
        simp [hq]

theorem Scanner.Robust.step (hS : S.Robust) (hW : W.test.Robust) : (S.step W).Robust where
  toRobust := Cursor.robust_combining _ fun b : Walking S W =>
    { b with source := S.close b.source, test := W.test.close b.test }
  pull b := by
    show Interruptible (Scanner.pullWalked b)
    unfold Scanner.pullWalked
    exact (b.sources.interruptible_advance hS hW).andThen fun r _ => .pure (.found r.1) _

theorem Walk.interruptible_comeFrom (hI : I.Robust) (hW : W.test.Robust) (quad : Quad)
    (source : Handle) (s : I.State × W.test.State) :
    Interruptible (W.comeFrom I quad source s) := by
  refine (hW.bindings quad s.2).andThen fun sets _ => Interruptible.inState ?_ _
  exact (hI.contains source s.1).andThen fun _ _ => (hI.alternates _).mapValue _

theorem Walk.interruptible_retrace (hI : I.Robust) (hW : W.test.Robust) :
    ∀ (quads : List QuadId) (s : I.State × W.test.State), Interruptible (W.retrace I quads s)
  | [], s => .pure (.found []) s
  | id :: quads, s => by
      refine Interruptible.check ?_
      cases (W.store.quad id).bind fun quad => (quad.at W.fromEnd).map (quad, ·) with
      | none => exact interruptible_retrace hI hW quads s
      | some p =>
          refine Interruptible.congr ((interruptible_comeFrom hI hW p.1 p.2 s).either
            (fun sets s t => (W.retrace I quads s t).mapValue (sets ++ ·)) (W.retrace I quads)
            (fun _ s => s) (fun sets _ => (interruptible_retrace hI hW quads _).mapValue _)
            (interruptible_retrace hI hW quads _)) fun t => ?_
          dsimp only [Outcome.either]
          cases (W.comeFrom I p.1 p.2 s t).answer <;> rfl

theorem Index.Robust.step (hI : I.Robust) (hW : W.test.Robust) : (I.step W).Robust where
  toRobust := Cursor.robust_listing _ _ _
  probe h b := by
    have hretrace := Walk.interruptible_retrace hI hW (W.store.quadsWith W.toEnd h) b.source
    refine Interruptible.congr (hretrace.either
      (fun sets s t => if sets.isEmpty then ⟨.nothing, { b with source := s }, t⟩
        else ⟨.found (), ⟨s, some h, sets⟩, t⟩)
      (fun s t => ⟨.nothing, { b with source := s }, t⟩) (fun _ s => { b with source := s })
      (fun sets _ => ?_) (.pure .nothing _)) fun t => ?_
    · split <;> exact .pure _ _
    · dsimp only [Index.step, Outcome.either]
      rcases (W.retrace I (W.store.quadsWith W.toEnd h) b.source t).answer with
        (_ | _) | _ | _ <;> rfl

theorem Roles.Robust.step (hR : R.Robust) (hW : W.test.Robust) : (R.step W).Robust :=
  ⟨hR.scanner.step hW, hR.index.step hW⟩

end Steps

/-! ## Closures -/

namespace Closure

variable {C : Closure}

theorem interruptible_expand (hC : ∀ R : Roles, R.Robust → (C.apply R).Robust) (b : ClosureState)
    (frontier : Reached) : Interruptible (C.expand b frontier) := by
  have hlevel := hC _ ((Roles.robust_ofHandles frontier.inputs).naming [baseName])
  unfold expand
  refine (hlevel.scanner.record _).andThen fun rows _ => ?_
  exact .pure (.found ()) _

theorem interruptible_finish (b : ClosureState) : Interruptible (finish b) :=
  Interruptible.check (.pure .nothing _)

theorem interruptible_descend (hC : ∀ R : Roles, R.Robust → (C.apply R).Robust) (b : ClosureState)
    (frontier : Reached) : Interruptible (C.descend b frontier) := by
  unfold descend
  split
  · refine (interruptible_expand hC b frontier).andThen fun _ _ => Interruptible.check ?_
    cases show? (C.expand b frontier .never).state with
    | some p => exact .pure (.found p.1) p.2
    | none => exact interruptible_finish _
  · exact interruptible_finish b

theorem interruptible_pull (hC : ∀ R : Roles, R.Robust → (C.apply R).Robust) (hS : S.Robust)
    (b : ClosureState) : Interruptible (C.pull S b) := by
  unfold pull
  cases show? b with
  | some p => exact .pure (.found p.1) p.2
  | none =>
      cases b.finished with
      | true => exact .pure .nothing b
      | false =>
          simp only [Bool.false_eq_true, if_false]
          cases b.frontier with
          | some frontier => exact interruptible_descend hC b frontier
          | none =>
              refine (hS.record _).andThen fun rows _ => ?_
              exact interruptible_descend hC _ _

end Closure

theorem Scanner.Robust.closure (hS : S.Robust) {C : Closure}
    (hC : ∀ R : Roles, R.Robust → (C.apply R).Robust) : (S.closure C).Robust where
  turn b := .pure .nothing b
  pull := Closure.interruptible_pull hC hS

end GraphQuery
