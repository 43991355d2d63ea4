import GraphQuery.Plan.Roles
import GraphQuery.Proofs.Closure.Level
import GraphQuery.Proofs.Interruption.Cursors
import GraphQuery.Proofs.Soundness.Basic
import Mathlib.Data.List.InsertIdx

/-!
# Sound cursors

Each way of building a cursor from others keeps soundness. Handles come in with the leaves and from
the store, by the images of maps, the ends of quads and the depths of closures; everything else only
passes on handles and bindings that it was given.
-/

namespace GraphQuery

variable {known : Handle → Prop} {S : Scanner} {I : Index} {R : Roles} {Is : List Index}
  {Ss : List Scanner} {store : QuadStore}

/-- What the store gives out is known, and what is known it resolves. -/
structure QuadStore.Grounds (store : QuadStore) (known : Handle → Prop) : Prop where
  resolves : ∀ h, known h → (store.resolve h).isSome
  intern : ∀ v h, store.intern v = some h → known h
  nodes : ∀ h ∈ store.nodes, known h
  ends : ∀ id quad d h, store.quad id = some quad → quad.at d = some h → known h

/-! ## Leaves -/

theorem Scanner.keeps_ofList (handles : List Handle) : (Scanner.ofList handles).Keeps known
    fun b => (∀ h ∈ b.current, known h) ∧ ∀ h ∈ b.rest, known h where
  shown _ h hb hs := hb.1 h hs
  binds _ _ := Tags.every_empty
  turn _ _ hb := ⟨trivial, hb⟩
  clear _ hb := ⟨by simp [ofList], hb.2⟩
  pull b t hb := by
    simp only [ofList]
    split
    · exact ⟨trivial, hb⟩
    · rename_i h rest hrest
      obtain ⟨hh, htail⟩ := List.forall_mem_cons.1 (hrest ▸ hb.2)
      exact ⟨hh, by simpa using hh, htail⟩

theorem Scanner.sound_ofList {handles : List Handle} (hh : ∀ h ∈ handles, known h) :
    (Scanner.ofList handles).Sound known :=
  (keeps_ofList handles).sound ⟨by simp [ofList], hh⟩

theorem Index.keeps_ofMem (mem : Handle → Bool) : (Index.ofMem mem).Keeps known
    fun b : Option Handle => ∀ h ∈ b, known h where
  shown _ h hb hs := hb h hs
  binds _ _ := Tags.every_empty
  turn _ _ hb := ⟨trivial, hb⟩
  aim _ _ _ _ := by simp [ofMem]
  probe h b t hh hb := by
    simp only [ofMem]
    split
    · exact ⟨trivial, by simpa using hh⟩
    · exact ⟨trivial, hb⟩

theorem Index.sound_ofMem (mem : Handle → Bool) : (Index.ofMem mem).Sound known :=
  (keeps_ofMem mem).sound (by simp [ofMem])

theorem Roles.sound_ofHandles {handles : HandleList} (hh : ∀ h ∈ handles.toList, known h) :
    (Roles.ofHandles handles).Sound known :=
  ⟨Scanner.sound_ofList hh, Index.sound_ofMem _⟩

theorem Roles.sound_null : Roles.null.Sound known :=
  ⟨Scanner.sound_ofList (by simp), Index.sound_ofMem _⟩

theorem Roles.sound_nodes (hk : store.Grounds known) : (Roles.nodes store).Sound known :=
  ⟨Scanner.sound_ofList hk.nodes, Index.sound_ofMem _⟩

/-! ## Naming -/

theorem Cursor.Confines.naming {C : Cursor} {F : C.State → Prop} (hC : C.Confines known F)
    (names : List String) : (C.naming names).Keeps known F where
  shown := hC.result
  binds s hs := by
    simp only [Cursor.naming]
    split
    · exact (hC.tags s hs).insertAll fun _ _ => hC.result s _ hs ‹_›
    · exact hC.tags s hs
  turn := hC.nextPath

theorem Roles.Sound.naming (hR : R.Sound known) (names : List String) :
    (R.naming names).Sound known where
  scanner :=
    have hS := R.scanner.confines_proper
    Scanner.Keeps.sound ⟨hS.naming names, fun _ hs => hs, hS.next⟩ hR.scanner
  index :=
    have hI := R.index.confines_proper
    Index.Keeps.sound ⟨hI.naming names, fun _ _ _ hs => hs, hI.contains⟩ hR.index

/-! ## Sieves -/

section Sieves

variable {κ : Type} {memory : κ} {forget : κ → κ} {judge : Handle → κ → Token → Outcome Unit κ}
  {Q : κ → Prop}

theorem Cursor.Confines.beside {C : Cursor} {F : C.State → Prop} (hC : C.Confines known F)
    (memory : κ) (forget : κ → κ) (Q : κ → Prop) :
    (C.beside memory forget).Keeps known fun b => F b.1 ∧ Q b.2 where
  shown b h hb := hC.result b.1 h hb.1
  binds b hb := hC.tags b.1 hb.1
  turn b t hb :=
    have ho := hC.nextPath b.1 t hb.1
    ⟨ho.answer, ho.state, hb.2⟩

theorem Scanner.Sound.sieve (hS : S.Sound known) (hmemory : Q memory)
    (hj : ∀ h k t, known h → Q k → (judge h k t).Proper (fun _ => True) Q) :
    (S.sieve memory forget judge).Sound known := by
  have hstates : S.Confines known _ := S.confines_proper
  refine Scanner.Keeps.sound (P := fun b => S.Proper known b.1 ∧ Q b.2)
    ⟨hstates.beside memory forget Q, fun _ hb => hb, fun b t hb => ?_⟩ ⟨hS, hmemory⟩
  exact hstates.sift (fun h k t hh hk => (hj h k t hh hk).mapValue fun _ _ => hh) hb.1 hb.2 t

theorem Index.Sound.sieve (hI : I.Sound known) (hmemory : Q memory)
    (hj : ∀ h k t, known h → Q k → (judge h k t).Proper (fun _ => True) Q) :
    (I.sieve memory forget judge).Sound known := by
  have hstates : I.Confines known _ := I.confines_proper
  refine Index.Keeps.sound (P := fun b => I.Proper known b.1 ∧ Q b.2)
    ⟨hstates.beside memory forget Q, fun _ _ _ hb => hb, fun h b t hh hb => ?_⟩ ⟨hI, hmemory⟩
  simp only [Index.sieve]
  refine (hj h b.2 t hh hb.2).andThen (fun _ k t _ hk => ?_) fun k hk => ⟨hb.1, hk⟩
  exact (hstates.contains h b.1 t hh hb.1).inState fun _ hs => ⟨hs, hk⟩

theorem proper_judging (hk : store.Grounds known) (test : Value → Except String Bool)
    (unknown : Handle → Answer Unit) {h : Handle} (hh : known h) (x : Unit) (t : Token) :
    (judging (verdictOn store test unknown) h x t).Proper (fun _ => True) fun _ => True := by
  refine ⟨?_, trivial⟩
  show Answer.Proper _ (verdictOn store test unknown h)
  obtain ⟨v, hv⟩ := Option.isSome_iff_exists.1 (hk.resolves h hh)
  simp only [verdictOn, hv]
  cases test v with
  | error reason => rfl
  | ok b => cases b <;> trivial

theorem Roles.Sound.testing (hR : R.Sound known) (hk : store.Grounds known)
    (test : Value → Except String Bool) : (R.testing store test).Sound known where
  scanner := hR.scanner.sieve trivial fun _ x t hh _ => proper_judging hk test _ hh x t
  index := hR.index.sieve trivial fun _ x t hh _ => proper_judging hk test _ hh x t

theorem Index.proper_forbid {s : I.State} (hs : I.Proper known s) {h : Handle} (hh : known h)
    (t : Token) : (I.forbid h s t).Proper (fun _ => True) (I.Proper known) := by
  have hc := I.confines_proper.contains h s t hh hs
  unfold Index.forbid
  dsimp only
  split
  · exact ⟨trivial, hc.state⟩
  · exact ⟨trivial, hc.state⟩
  · exact ⟨hc.failed ‹_›, hc.state⟩

theorem Roles.Sound.without {whole forbidden : Roles} (hw : whole.Sound known)
    (hf : forbidden.Sound known) : (whole.without forbidden).Sound known where
  scanner := hw.scanner.sieve hf.index fun _ _ t hh hs => Index.proper_forbid hs hh t
  index := hw.index.sieve hf.index fun _ _ t hh hs => Index.proper_forbid hs hh t

theorem Scanner.Sound.firsts (hS : S.Sound known) : S.firsts.Sound known :=
  hS.sieve (Q := fun _ => True) trivial fun h seen t _ _ => by
    unfold acceptNew
    split <;> exact ⟨trivial, trivial⟩

end Sieves

/-! ## Paging -/

abbrev Counted.Proper (known : Handle → Prop) (b : Counted S) : Prop :=
  S.Proper known b.source

theorem Scanner.keeps_limit (S : Scanner) (n : Nat) :
    (S.limit n).Keeps known (Counted.Proper known) where
  shown b h hb := S.confines_proper.result b.source h hb
  binds b hb := S.confines_proper.tags b.source hb
  turn b t hb :=
    have ho := S.confines_proper.nextPath b.source t hb
    ⟨ho.answer, ho.state⟩
  clear _ hb := hb
  pull b t hb :=
    have ho := S.confines_proper.next b.source t hb
    ⟨ho.answer, ho.state⟩

theorem Scanner.Sound.limit (hS : S.Sound known) (n : Nat) : (S.limit n).Sound known :=
  (S.keeps_limit n).sound hS

theorem Scanner.proper_advancePast : ∀ (n : Nat) {s : S.State}, S.Proper known s → ∀ t : Token,
    (S.advancePast n s t).Proper known (Counted.Proper known)
  | 0, s, hs, t => (S.confines_proper.next s t hs).inState fun _ hs => hs
  | n + 1, s, hs, t => by
      unfold advancePast
      refine (S.confines_proper.next s t hs).andThen (fun _ s t _ hs => ?_) fun _ hs => hs
      exact Outcome.Proper.check (P := Counted.Proper known) (fun _ => hs)
        (fun t => proper_advancePast n hs t) t

theorem Scanner.keeps_skip (S : Scanner) (n : Nat) :
    (S.skip n).Keeps known (Counted.Proper known) where
  shown b h hb := S.confines_proper.result b.source h hb
  binds b hb := S.confines_proper.tags b.source hb
  turn b t hb :=
    have ho := S.confines_proper.nextPath b.source t hb
    ⟨ho.answer, ho.state⟩
  clear _ hb := hb
  pull b t hb := proper_advancePast b.count hb t

theorem Scanner.Sound.skip (hS : S.Sound known) (n : Nat) : (S.skip n).Sound known :=
  (S.keeps_skip n).sound hS

/-! ## Mapped results -/

theorem proper_imageOf (hk : store.Grounds known) (f : Value → Except String Value) {h : Handle}
    (hh : known h) : (imageOf store f h).Proper known := by
  obtain ⟨v, hv⟩ := Option.isSome_iff_exists.1 (hk.resolves h hh)
  simp only [imageOf, hv]
  cases f v with
  | error reason => rfl
  | ok w =>
      dsimp only
      cases hw : store.intern w with
      | none => trivial
      | some image => exact hk.intern w image hw

structure MappedPlace.Proper (known : Handle → Prop) (b : MappedPlace S) : Prop where
  source : S.Proper known b.source
  current : ∀ h ∈ b.current, known h

theorem Scanner.keeps_mapped (S : Scanner) (hk : store.Grounds known)
    (f : Value → Except String Value) :
    (S.mapped store f).Keeps known (MappedPlace.Proper known) where
  shown b h hb hs := hb.current h hs
  binds b hb := S.confines_proper.tags b.source hb.source
  turn b t hb :=
    have ho := S.confines_proper.nextPath b.source t hb.source
    ⟨ho.answer, ho.state, hb.current⟩
  clear b hb := ⟨hb.source, by simp [Scanner.mapped]⟩
  pull b t hb := by
    have ho : (S.sift (fun h x t => ⟨imageOf store f h, x, t⟩) b.source () t).Proper known _ :=
      S.confines_proper.sift (Q := fun _ => True)
        (fun h x t hh _ => ⟨proper_imageOf hk f hh, trivial⟩) hb.source trivial t
    refine ⟨ho.answer, ho.state.1, fun h hh => ho.found ?_⟩
    revert hh
    show Answer.value? _ = some h → _
    cases (S.sift (fun h x t => ⟨imageOf store f h, x, t⟩) b.source () t).answer <;>
      simp [Answer.value?]

theorem Scanner.Sound.mapped (hS : S.Sound known) (hk : store.Grounds known)
    (f : Value → Except String Value) : (S.mapped store f).Sound known :=
  (S.keeps_mapped hk f).sound ⟨hS, by simp [Scanner.mapped]⟩

/-! ## Listings -/

structure Listing.Known {ρ : Type} (known : Handle → Prop) (Q : ρ → Prop) (b : Listing ρ) :
    Prop where
  source : Q b.source
  current : ∀ h ∈ b.current, known h
  sets : ∀ t ∈ b.sets, t.Known known

section Listings

variable {ρ : Type} {Q : ρ → Prop} {start : ρ}

theorem Listing.Known.turn {b : Listing ρ} (hb : b.Known known Q) (t : Token) :
    (b.turn t).Proper (fun _ => True) (Listing.Known known Q) := by
  unfold Listing.turn
  split
  · rename_i u v rest hsets
    exact ⟨trivial, hb.source, hb.current, (List.forall_mem_cons.1 (hsets ▸ hb.sets)).2⟩
  · exact ⟨trivial, hb⟩

theorem Cursor.keeps_listing (start : ρ) (canTurn : Listing ρ → Bool)
    (release : Listing ρ → Listing ρ) (Q : ρ → Prop) :
    (Cursor.listing start canTurn release).Keeps known (Listing.Known known Q) where
  shown b h hb hs := hb.current h hs
  binds b hb := by
    simp only [Cursor.listing]
    cases hsets : b.sets with
    | nil => exact Tags.every_empty
    | cons t rest => exact hb.sets t (by simp [hsets])
  turn _ t hb := hb.turn t

theorem Listing.known_start (hstart : Q start) : Listing.Known known Q ⟨start, none, []⟩ :=
  ⟨hstart, by simp, by simp⟩

end Listings

theorem Scanner.Sound.record (hS : S.Sound known) {vet : Handle → Option QueryError}
    (hvet : ∀ h, known h → vet h = none) (t : Token) :
    (S.record vet t).Proper (RowsKnown known) fun _ => True :=
  (S.confines_proper.drain hvet hS t).mono (fun _ h => h) fun _ _ => trivial

theorem RowsKnown.bindingsOf {rows : List Row} (hrows : RowsKnown known rows) (h : Handle) :
    ∀ t ∈ bindingsOf h rows, t.Known known := by
  intro t ht
  obtain ⟨r, hr, ht⟩ := List.mem_flatMap.1 ht
  exact (hrows r (List.mem_of_mem_filter hr)).2 t ht

def RecordKnown (known : Handle → Prop) (record : Option (List Row)) : Prop :=
  ∀ rows ∈ record, RowsKnown known rows

theorem Scanner.Sound.recorded (hS : S.Sound known) : S.recorded.Sound known := by
  refine Index.Keeps.sound (P := Listing.Known known (RecordKnown known))
    { toKeeps := Cursor.keeps_listing _ _ _ _
      aim := fun h b _ hb => ⟨hb.source, by simp [Scanner.recorded], by simp [Scanner.recorded]⟩
      probe := fun h b t hh hb => ?_ } (Listing.known_start (by simp [RecordKnown]))
  have hnone {rows : List Row} (hrows : RowsKnown known rows) :
      Listing.Known known (RecordKnown known) ⟨some rows, none, []⟩ :=
    Listing.known_start (by simpa [RecordKnown] using hrows)
  have hsome {rows : List Row} (hrows : RowsKnown known rows) :
      Listing.Known known (RecordKnown known) ⟨some rows, some h, bindingsOf h rows⟩ :=
    ⟨(hnone hrows).source, by simpa using hh, hrows.bindingsOf h⟩
  simp only [Scanner.recorded]
  cases hsource : b.source with
  | some rows =>
      have hrows : RowsKnown known rows := hb.source rows hsource
      dsimp only
      split
      · exact ⟨trivial, hnone hrows⟩
      · exact ⟨trivial, hsome hrows⟩
  | none =>
      refine (hS.record (fun _ _ => rfl) t).andThen (fun rows _ t hrows _ => ?_) fun _ _ => hb
      split
      · exact ⟨trivial, hnone hrows⟩
      · exact ⟨trivial, hsome hrows⟩

theorem proper_pullRow {rows : List Row} (hrows : RowsKnown known rows)
    {b : Listing (Option (List Row))} (hb : b.Known known (RecordKnown known)) (t : Token) :
    (pullRow rows b t).Proper known (Listing.Known known (RecordKnown known)) := by
  unfold pullRow
  split
  · exact ⟨trivial, by simp [RecordKnown, RowsKnown], hb.current, hb.sets⟩
  · obtain ⟨⟨hh, hsets⟩, hrest⟩ := List.forall_mem_cons.1 hrows
    exact ⟨hh, fun _ hrows => Option.some.inj hrows ▸ hrest, by simpa using hh, hsets⟩

theorem QuadStore.Grounds.vet (hk : store.Grounds known) (h : Handle) (hh : known h) :
    store.vet h = none := by
  simp [QuadStore.vet, hk.resolves h hh]

theorem Scanner.Sound.sorted (hS : S.Sound known) (hk : store.Grounds known) :
    (S.sorted store).Sound known := by
  refine Scanner.Keeps.sound (P := Listing.Known known (RecordKnown known))
    { toKeeps := Cursor.keeps_listing _ _ _ _
      clear := fun b hb => ⟨hb.source, by simp [Scanner.sorted], by simp [Scanner.sorted]⟩
      pull := fun b t hb => ?_ } (Listing.known_start (by simp [RecordKnown]))
  show (S.pullSorted store b t).Proper _ _
  unfold Scanner.pullSorted
  cases hsource : b.source with
  | some rows => exact proper_pullRow (hb.source rows hsource) hb t
  | none =>
      refine (hS.record hk.vet t).andThen (fun rows _ t hrows _ => ?_) fun _ _ => hb
      exact proper_pullRow (fun r hr => hrows r (List.mem_mergeSort.1 hr)) hb t

theorem Roles.sound_ofScanner (hS : S.Sound known) : (Roles.ofScanner S).Sound known :=
  ⟨hS, hS.recorded⟩

end GraphQuery
