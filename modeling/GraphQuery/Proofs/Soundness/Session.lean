import GraphQuery.Proofs.Collect
import GraphQuery.Proofs.Soundness.Plan
import GraphQuery.Store.Social

/-!
# Sound queries

Every handle in a row that a query delivers is known to the store, and no query fails because of a
handle that the store did not issue or a cursor that was closed, whatever the path and its callbacks
do, however it is simplified and bounded, and wherever it is interrupted.
-/

namespace GraphQuery

variable {known : Handle → Prop}

structure ResultRow.Known (known : Handle → Prop) (row : ResultRow) : Prop where
  id : known row.id
  tags : row.tags.Known known

/-! ## Visits -/

namespace Scanner

variable {S : Scanner} {σ : Type} {visit : ResultRow → σ → Token → Visited σ} {Q : σ → Prop}

theorem visitResult_known (hvisit : ∀ row x t, row.Known known → Q x → Q (visit row x t).state)
    (d : Delivery) {s : S.State} (hs : S.Proper known s) (rows : Nat) {x : σ} (hx : Q x)
    (t : Token) :
    let r := S.visitResult d visit s rows x t
    Q r.state ∧ S.Proper known r.source ∧ ∀ e, r.after = .fail e → e.isMisuse = false := by
  have hrow {s : S.State} (hs : S.Proper known s) {x : σ} (hx : Q x) (t : Token)
      {v : Nat × Visited σ} (hnone : S.result s = none → v.2.state = x)
      (hsome : ∀ id, S.result s = some id →
        v.2.state = (visit ⟨id, (S.tags s).insert resultName id⟩ x t).state) : Q v.2.state := by
    cases hresult : S.result s with
    | none => exact hnone hresult ▸ hx
    | some id =>
        have hid : known id := S.confines_proper.result s id hs hresult
        have htags : ((S.tags s).insertAll [resultName] id).Known known :=
          (S.confines_proper.tags s hs).insertAll fun _ _ => hid
        exact hsome id hresult ▸ hvisit _ x t ⟨hid, htags⟩ hx
  fun_induction visitResult S d visit s rows x t with
  | case1 s rows x t v hstop =>
      have hv : Q v.2.state := hrow hs hx t (fun h => by simp [v, h]) fun id h => by simp [v, h]
      exact ⟨hv, hs, by simp⟩
  | case2 s rows x t v hstop hfull =>
      have hv : Q v.2.state := hrow hs hx t (fun h => by simp [v, h]) fun id h => by simp [v, h]
      exact ⟨hv, hs, by simp⟩
  | case3 s rows x t v hstop hfull o u ho ih =>
      have hv : Q v.2.state := hrow hs hx t (fun h => by simp [v, h]) fun id h => by simp [v, h]
      exact ih (S.confines_proper.nextPath s _ hs).state hv
  | case4 s rows x t v hstop hfull o ho =>
      have hv : Q v.2.state := hrow hs hx t (fun h => by simp [v, h]) fun id h => by simp [v, h]
      exact ⟨hv, (S.confines_proper.nextPath s _ hs).state, by simp⟩
  | case5 s rows x t v hstop hfull o e ho =>
      have hv : Q v.2.state := hrow hs hx t (fun h => by simp [v, h]) fun id h => by simp [v, h]
      have hn := S.confines_proper.nextPath s v.2.token hs
      refine ⟨hv, hn.state, fun e' he => ?_⟩
      obtain rfl : e = e' := by simpa using he
      exact hn.failed ho

/-- What a visitor keeps at known rows is kept by a visit, and the visit does not fail by misuse. -/
theorem visitFrom_known (hvisit : ∀ row x t, row.Known known → Q x → Q (visit row x t).state)
    (d : Delivery) {s : S.State} (hs : S.Proper known s) (rows : Nat) {x : σ} (hx : Q x)
    (t : Token) :
    let v := S.visitFrom d visit s rows x t
    Q v.state ∧ ∀ e, v.outcome = .error e → e.isMisuse = false := by
  fun_induction visitFrom S d visit s rows x t with
  | case1 s rows x t hfull => exact ⟨hx, by simp⟩
  | case2 s rows x t hfull o ho => exact ⟨hx, by simp⟩
  | case3 s rows x t hfull o e ho =>
      refine ⟨hx, fun e' he => ?_⟩
      obtain rfl : e = e' := by simpa using he
      exact (S.confines_proper.next s t hs).failed ho
  | case4 s rows x t hfull o h ho r hafter =>
      have hn := S.confines_proper.next s t hs
      exact ⟨(visitResult_known hvisit d hn.state rows hx _).1, by simp⟩
  | case5 s rows x t hfull o h ho r e hafter =>
      obtain ⟨hkept, -, hfail⟩ :=
        visitResult_known hvisit d (S.confines_proper.next s t hs).state rows hx o.token
      refine ⟨hkept, fun e' he => ?_⟩
      obtain rfl : e = e' := by simpa using he
      exact hfail e hafter
  | case6 s rows x t hfull o h ho r hafter ih =>
      obtain ⟨hkept, hsource, -⟩ :=
        visitResult_known hvisit d (S.confines_proper.next s t hs).state rows hx o.token
      exact ih hsource hkept

end Scanner

/-! ## Sessions -/

namespace Session

variable {s : Session} {σ : Type} {visit : ResultRow → σ → Token → Visited σ} {Q : σ → Prop}

/-- What a visitor keeps at known rows is kept by a query, and the query does not fail by misuse. -/
theorem run_known (hk : s.store.Grounds known)
    (hvisit : ∀ row x t, row.Known known → Q x → Q (visit row x t).state) (path : Path)
    (limit : Option Nat) (paths : Bool) {x : σ} (hx : Q x) (t : Token) :
    Q (s.run path limit paths visit x t).state ∧
      ∀ e, (s.run path limit paths visit x t).outcome = .error e → e.isMisuse = false := by
  have hcompiled := path.compile_knowing hk s.config.bindings
  unfold run
  split
  · rename_i e t' hprepare
    refine ⟨hx, fun e' he => ?_⟩
    obtain rfl : e = e' := by simpa using he
    unfold prepare at hprepare
    split at hprepare
    · exact Plan.not_misuse_of_passesLeft hprepare
    · cases hprepare
  · rename_i plan t' hprepare
    have hplan : plan.Within (.knowing known) := by
      unfold prepare at hprepare
      split at hprepare
      · exact Plan.within_normalize hcompiled hprepare
      · cases hprepare
        exact hcompiled
    exact Scanner.visitFrom_known hvisit _ (Plan.sound hk hplan).scanner 0 hx t'

/-- The rows collected are known, and collecting them does not fail by misuse. -/
theorem rows_known (hk : s.store.Grounds known) (path : Path) (limit : Option Nat) (paths : Bool)
    (t : Token) :
    (∀ rows, (rowsOf (s.run path limit paths keepRow [] t)).1 = .ok rows →
      ∀ row ∈ rows, row.Known known) ∧
    ∀ e, (rowsOf (s.run path limit paths keepRow [] t)).1 = .error e → e.isMisuse = false := by
  have hkeep (row : ResultRow) (rows : List ResultRow) (t : Token) (hrow : row.Known known)
      (hrows : ∀ r ∈ rows, r.Known known) : ∀ r ∈ (keepRow row rows t).state, r.Known known :=
    List.forall_mem_cons.2 ⟨hrow, hrows⟩
  obtain ⟨hrows, herror⟩ := run_known (Q := fun rows : List ResultRow => ∀ r ∈ rows, r.Known known)
    hk hkeep path limit paths (x := []) (by simp) t
  unfold rowsOf
  cases ho : (s.run path limit paths keepRow [] t).outcome with
  | error e =>
      refine ⟨by simp [Except.map], fun e' he => ?_⟩
      obtain rfl : e = e' := by simpa [Except.map] using he
      exact herror e ho
  | ok n =>
      refine ⟨fun rows hok row hrow => hrows row ?_, by simp [Except.map]⟩
      obtain rfl : _ = rows := by simpa [Except.map] using hok
      simpa using hrow

/-- The values of known rows can all be had. -/
theorem exists_values (hk : s.store.Grounds known) : ∀ {rows : List ResultRow},
    (∀ row ∈ rows, row.Known known) → ∃ vs, rows.mapM (fun row => s.valueOf row.id) = .ok vs
  | [], _ => ⟨[], rfl⟩
  | row :: rows, hrows => by
      obtain ⟨hrow, hrest⟩ := List.forall_mem_cons.1 hrows
      obtain ⟨v, hv⟩ := Option.isSome_iff_exists.1 (hk.resolves row.id hrow.id)
      obtain ⟨vs, hvs⟩ := exists_values hk hrest
      refine ⟨v :: vs, ?_⟩
      rw [List.mapM_cons, hvs, valueOf, hv]
      rfl

theorem not_misuse_of_values (hk : s.store.Grounds known) (path : Path) (limit : Option Nat)
    (t : Token) {e : QueryError} (he : (s.values path limit t).1 = .error e) :
    e.isMisuse = false := by
  obtain ⟨hrows, herror⟩ := rows_known hk path limit false t
  unfold values at he
  cases hr : (rowsOf (s.run path limit false keepRow [] t)).1 with
  | error e' =>
      simp only [hr, Except.bind] at he
      exact Except.error.inj he ▸ herror e' hr
  | ok rows =>
      obtain ⟨vs, hvs⟩ := exists_values hk (hrows rows hr)
      simp [hr, Except.bind, hvs] at he

theorem not_misuse_of_first (hk : s.store.Grounds known) (path : Path) (t : Token) {e : QueryError}
    (he : (s.first path t).1 = .error e) : e.isMisuse = false := by
  have hfirst : (s.first path t).1 = (s.values path (some 1) t).1.map List.head? := rfl
  rw [hfirst] at he
  cases hv : (s.values path (some 1) t).1 with
  | error e' =>
      rw [hv] at he
      exact Except.error.inj he ▸ not_misuse_of_values hk path (some 1) t hv
  | ok vs => simp [hv, Except.map] at he

end Session

/-! ## Stores in memory -/

def QuadStore.Knows (store : QuadStore) (h : Handle) : Prop :=
  (store.resolve h).isSome

/-- A store in memory resolves every handle that it gives out. -/
theorem MemoryStore.grounds (m : MemoryStore) : m.toStore.Grounds m.toStore.Knows := by
  have hknows {h : Handle} (hh : h.toNat < m.values.size) : m.toStore.Knows h := by
    simpa [QuadStore.Knows, toStore, resolve] using hh
  refine ⟨fun _ hh => hh, fun v h hv => ?_, fun h hh => ?_, fun id quad d h hquad hd => ?_⟩
  · obtain ⟨i, hi, rfl⟩ := Option.map_eq_some_iff.1 hv
    exact hknows (Nat.lt_of_le_of_lt (ofNat_toNat_le i) (lt_size_of_indexOf? hi))
  · obtain ⟨i, hi, rfl⟩ := List.mem_map.1 hh
    exact hknows (Nat.lt_of_le_of_lt (ofNat_toNat_le i) (List.mem_range.1 hi))
  · obtain ⟨hlt, rfl⟩ := Array.getElem?_eq_some_iff.1 hquad
    exact hknows (m.issued _ (Array.getElem_mem_toList hlt) d h hd)

namespace Session

/-- No query on a store in memory fails because of a handle that the store did not issue or a cursor
that was closed, and all handles of the rows that it delivers resolve: what any visitor keeps at
such rows holds in the end. -/
theorem never_misused (m : MemoryStore) (config : Config) (path : Path) (limit : Option Nat)
    (t : Token) :
    let s : Session := ⟨m.toStore, config⟩
    (∀ e, (s.collect path limit t).1 = .error e → e.isMisuse = false) ∧
    (∀ e, (s.values path limit t).1 = .error e → e.isMisuse = false) ∧
    (∀ e, (s.first path t).1 = .error e → e.isMisuse = false) ∧
    (∀ e, (s.count path t).1 = .error e → e.isMisuse = false) ∧
    (∀ (σ : Type) (visit : ResultRow → σ → Token → Visited σ) (x : σ) (e : QueryError),
      (s.forEach path limit visit x t).outcome = .error e → e.isMisuse = false) ∧
    (∀ rows, (s.collect path limit t).1 = .ok rows → ∀ row ∈ rows, row.Known s.store.Knows) ∧
    ∀ (σ : Type) (visit : ResultRow → σ → Token → Visited σ) (Q : σ → Prop) (x : σ),
      (∀ row x t, row.Known s.store.Knows → Q x → Q (visit row x t).state) → Q x →
      Q (s.forEach path limit visit x t).state := by
  intro s
  have hk : s.store.Grounds s.store.Knows := m.grounds
  have hvisits (σ : Type) (visit : ResultRow → σ → Token → Visited σ) (limit : Option Nat) (x : σ)
      (e : QueryError) (he : (s.forEach path limit visit x t).outcome = .error e) :
      e.isMisuse = false :=
    (run_known (Q := fun _ => True) hk (fun _ _ _ _ _ => trivial) path limit _ trivial t).2 e he
  refine ⟨(rows_known hk path limit _ t).2, fun e he => not_misuse_of_values hk path limit t he,
    fun e he => not_misuse_of_first hk path t he, fun e he => hvisits _ _ _ _ e he,
    fun σ visit x e he => hvisits σ visit limit x e he, (rows_known hk path limit _ t).1, ?_⟩
  exact fun σ visit Q x hvisit hx => (run_known hk hvisit path limit _ hx t).1

/-- Whom Charlie follows: the nodes found and all that their rows bind are known. -/
theorem charlie_follows_known :
    let path : Path := .mk (.values [.iri "charlie"])
      [.tag ["start"], .outgoing (.values [.iri "follows"]) ["via"]]
    let s : Session := ⟨MemoryStore.social.toStore, { optimize := false }⟩
    let row (h : Handle) : ResultRow :=
      ⟨h, ((Tags.empty.insert "start" (.ofNat 4)).insert "via" (.ofNat 1)).insert resultName h⟩
    (s.collect path none .never).1 = .ok [row (.ofNat 2), row (.ofNat 5)] ∧
      ∀ r ∈ [row (.ofNat 2), row (.ofNat 5)], r.Known s.store.Knows := by
  intro path s row
  have hcompile : path.compile s.store .first =
      .step (.save (.ofValues s.store [.iri "charlie"]) ["start"])
        .subject .object (some (.ofValues s.store [.iri "follows"])) ["via"] none := by
    simp [path, Path.compile, Path.build, Path.buildOps, Path.lower, Path.restriction,
      LabelContext.demand]
  have hplan : (s.prepare path .never).1 = .ok _ := congrArg Except.ok hcompile
  have hcollect : (s.collect path none .never).1 = .ok [row (.ofNat 2), row (.ofNat 5)] := by
    rw [collect_eq rfl rfl hplan]
    decide +kernel
  have hknown := never_misused .social { optimize := false } path none .never
  exact ⟨hcollect, hknown.2.2.2.2.2.1 _ hcollect⟩

end Session

end GraphQuery
