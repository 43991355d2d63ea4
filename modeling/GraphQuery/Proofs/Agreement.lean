import GraphQuery.Proofs.Table.Plan
import GraphQuery.Store.Social

/-!
# Scans and probes agree

What a probe finds for a handle is what the rows of the scan have for it, up to the order of the
binding sets. Each operator keeps this. For a join and for a step it comes down to a product that is
formed for one binding set of the driver after the other, or for all of them at once.
-/

namespace GraphQuery

/-! ## The binding sets of a handle -/

section Bindings

variable {h : Handle}

theorem bindingsOf_eq (h : Handle) (rows : List Row) :
    bindingsOf h rows = rows.flatMap fun r => if r.handle = h then r.sets else [] := by
  unfold bindingsOf
  induction rows with
  | nil => rfl
  | cons r rows ih =>
      rw [List.flatMap_cons, ← ih]
      by_cases hr : r.handle = h
      · simp [hr]
      · simp [hr]

@[simp] theorem bindingsOf_nil (h : Handle) : bindingsOf h [] = [] :=
  rfl

theorem bindingsOf_cons (h : Handle) (r : Row) (rows : List Row) :
    bindingsOf h (r :: rows) = (if r.handle = h then r.sets else []) ++ bindingsOf h rows := by
  rw [bindingsOf_eq, bindingsOf_eq, List.flatMap_cons]

theorem bindingsOf_append (h : Handle) (rows rows' : List Row) :
    bindingsOf h (rows ++ rows') = bindingsOf h rows ++ bindingsOf h rows' := by
  rw [bindingsOf, bindingsOf, bindingsOf, List.filter_append, List.flatMap_append]

theorem bindingsOf_flatMap {α : Type} (h : Handle) (xs : List α) (f : α → List Row) :
    bindingsOf h (xs.flatMap f) = xs.flatMap fun x => bindingsOf h (f x) := by
  induction xs with
  | nil => rfl
  | cons x xs ih => rw [List.flatMap_cons, bindingsOf_append, ih, List.flatMap_cons]

theorem bindingsOf_perm {rows rows' : List Row} (hp : rows.Perm rows') (h : Handle) :
    (bindingsOf h rows).Perm (bindingsOf h rows') :=
  (hp.filter _).flatMap_right _

/-- Rows without binding sets do not count. -/
theorem bindingsOf_boundRows (h : Handle) (rows : List Row) :
    bindingsOf h (boundRows rows) = bindingsOf h rows := by
  induction rows with
  | nil => rfl
  | cons r rows ih =>
      rw [boundRows_cons, bindingsOf_cons]
      by_cases hr : r.sets = []
      · simp [hr, ih]
      · simp [hr, ih, bindingsOf_cons]

theorem bindingsOf_bare (h : Handle) {handles : List Handle} (hn : handles.Nodup) :
    bindingsOf h (handles.map .bare) = if h ∈ handles then [.empty] else [] := by
  induction handles with
  | nil => rfl
  | cons a handles ih =>
      rw [List.nodup_cons] at hn
      rw [List.map_cons, bindingsOf_cons, ih hn.2]
      by_cases ha : a = h
      · subst ha
        simp [Row.bare, hn.1]
      · simp [Row.bare, ha, Ne.symm ha]

/-- A product for each row of a handle is one product for all of them. -/
theorem product_bindingsOf (before after : List (List Tags)) (rows : List Row) (h : Handle) :
    (rows.flatMap fun r =>
      if r.handle = h then Tags.product (before ++ r.sets :: after) else []).Perm
        (Tags.product (before ++ bindingsOf h rows :: after)) := by
  have hsplit : (fun r : Row =>
      if r.handle = h then Tags.product (before ++ r.sets :: after) else []) =
        fun r => Tags.product (before ++ (if r.handle = h then r.sets else []) :: after) := by
    funext r
    by_cases hr : r.handle = h
    · rw [if_pos hr, if_pos hr]
    · rw [if_neg hr, if_neg hr, Tags.product_eq_nil_iff.2 (by simp)]
  rw [hsplit, bindingsOf_eq]
  exact Tags.product_flatMap before after rows _

end Bindings

namespace Table

/-- A probe finds each handle with the binding sets that the rows have for it, in some order. -/
def Agrees (T : Table) : Prop :=
  ∀ h, (T.sets h).Perm (bindingsOf h T.rows)

variable {T : Table}

theorem agrees_recorded (rows : List Row) : (recorded rows).Agrees :=
  fun _ => .refl _

theorem agrees_leaf {handles : List Handle} {mem : Handle → Bool} (hn : handles.Nodup)
    (hm : ∀ h, mem h = true ↔ h ∈ handles) : (leaf handles mem).Agrees := by
  intro h
  show (if mem h then [Tags.empty] else []).Perm (bindingsOf h (handles.map .bare))
  rw [bindingsOf_bare h hn]
  simp [hm h]

theorem Agrees.naming (hT : T.Agrees) (names : List String) : (T.naming names).Agrees := by
  intro h
  have hrows : bindingsOf h (T.naming names).rows =
      (bindingsOf h T.rows).map fun u => u.insertAll names h := by
    simp only [Table.naming, bindingsOf_eq, List.flatMap_map, List.map_flatMap]
    refine List.flatMap_congr fun r _ => ?_
    by_cases hr : r.handle = h
    · simp [hr]
    · simp [hr]
  rw [hrows]
  exact (hT h).map _

theorem Agrees.filter (hT : T.Agrees) (keep : Handle → Bool) : (T.filter keep).Agrees := by
  intro h
  have hrows : bindingsOf h (T.filter keep).rows = if keep h then bindingsOf h T.rows else [] := by
    simp only [Table.filter]
    induction T.rows with
    | nil => simp
    | cons r rows ih =>
        by_cases hr : r.handle = h
        · subst hr
          by_cases hk : keep r.handle = true
          · simp only [List.filter_cons, hk, if_true, bindingsOf_cons] at ih ⊢
            rw [ih]
          · simp only [List.filter_cons, hk, if_false, Bool.false_eq_true] at ih ⊢
            exact ih
        · by_cases hk : keep r.handle = true
          · simp only [List.filter_cons, hk, if_true, bindingsOf_cons, hr, if_false,
              List.nil_append]
            exact ih
          · simp only [List.filter_cons, hk, if_false, Bool.false_eq_true, bindingsOf_cons, hr,
              List.nil_append]
            exact ih
  rw [hrows]
  by_cases hk : keep h = true
  · simpa [Table.filter, hk] using hT h
  · simp [Table.filter, hk]

theorem Agrees.limit (hT : T.Agrees) (n : Nat) : (T.limit n).Agrees := by
  unfold Table.limit
  split
  · exact hT
  · exact agrees_recorded _

theorem Agrees.skip (hT : T.Agrees) (n : Nat) : (T.skip n).Agrees := by
  unfold Table.skip
  split
  · exact hT
  · exact agrees_recorded _

theorem Agrees.sorted (hT : T.Agrees) (store : QuadStore) : (T.sorted store).Agrees := fun h =>
  (hT h).trans (bindingsOf_perm (List.mergeSort_perm _ _).symm h)

theorem agrees_concat {Ts : List Table} (hT : ∀ T ∈ Ts, T.Agrees) : (concat Ts).Agrees := by
  intro h
  show (Ts.flatMap fun T => T.sets h).Perm (bindingsOf h (Ts.flatMap rows))
  rw [bindingsOf_flatMap]
  exact List.Perm.flatMap_left _ fun T hm => hT T hm h

/-! ## Joins -/

theorem insertIdx_eq_take_drop {α : Type} (xs : List α) (x : α) {i : Nat} (hi : i ≤ xs.length) :
    xs.insertIdx i x = xs.take i ++ x :: xs.drop i := by
  induction xs generalizing i with
  | nil =>
      obtain rfl : i = 0 := by simpa using hi
      rfl
  | cons y xs ih =>
      cases i with
      | zero => rfl
      | succ i => simp [ih (by simpa using hi)]

/-- The operands of a join are the driver put back among the others. -/
theorem map_sets_eq {Ts : List Table} {primary : Nat} (hp : primary < Ts.length) (h : Handle) :
    Ts.map (fun U => U.sets h) =
      ((Ts.eraseIdx primary).map fun U => U.sets h).insertIdx primary (Ts[primary].sets h) := by
  rw [← List.map_insertIdx (fun U : Table => U.sets h), List.insertIdx_eraseIdx_self (by omega),
    List.set_getElem_self]

theorem agrees_join {Ts : List Table} (hT : ∀ T ∈ Ts, T.Agrees) (primary : Nat) :
    (join Ts primary).Agrees := by
  unfold join
  cases hd : Ts[primary]? with
  | none => exact agrees_leaf List.nodup_nil (by simp)
  | some T =>
      obtain ⟨hp, rfl⟩ := List.getElem?_eq_some_iff.1 hd
      intro h
      have hothers : primary ≤ ((Ts.eraseIdx primary).map fun U => U.sets h).length := by
        rw [List.length_map, List.length_eraseIdx_of_lt hp]
        omega
      show (Tags.product (Ts.map fun U => U.sets h)).Perm (bindingsOf h (boundRows _))
      rw [map_sets_eq hp, bindingsOf_boundRows, insertIdx_eq_take_drop _ _ hothers]
      generalize hb : ((Ts.eraseIdx primary).map fun U => U.sets h).take primary = before
      generalize ha : ((Ts.eraseIdx primary).map fun U => U.sets h).drop primary = after
      have hrows : bindingsOf h (Ts[primary].rows.map (joinRow (Ts.eraseIdx primary) primary)) =
          Ts[primary].rows.flatMap fun r =>
            if r.handle = h then Tags.product (before ++ r.sets :: after) else [] := by
        rw [bindingsOf_eq, List.flatMap_map]
        refine List.flatMap_congr fun r _ => ?_
        by_cases hr : r.handle = h
        · simp only [joinRow, hr, if_true, insertIdx_eq_take_drop _ _ hothers, hb, ha]
        · simp only [joinRow, hr, if_false]
      rw [hrows]
      exact (Tags.product_perm before after (hT _ (List.getElem_mem hp) h)).trans
        (product_bindingsOf before after _ h).symm

/-! ## Steps -/

theorem flatMap_listed {β : Type} {store : QuadStore} {ids : List QuadId}
    (hl : ∀ d h, store.quadsWith d h = ids.filter fun id => (store.quad id).bind (·.at d) = some h)
    (d : Direction) (h : Handle) (f : QuadId → List β) :
    (store.quadsWith d h).flatMap f = ids.flatMap fun id =>
      if (store.quad id).bind (·.at d) = some h then f id else [] := by
  rw [hl]
  clear hl
  induction ids with
  | nil => rfl
  | cons id ids ih =>
      rw [List.flatMap_cons, ← ih]
      by_cases hid : (store.quad id).bind (·.at d) = some h
      · simp [hid]
      · simp [hid]

/-- What one quad brings to a handle is found from either end of it. -/
theorem walk_perm (hT : T.Agrees) (W : Trail) (D : QuadSets) (h : Handle) (id : QuadId) :
    (T.rows.flatMap fun r =>
      if (W.store.quad id).bind (·.at W.fromEnd) = some r.handle then
        bindingsOf h (walkRows W D r.sets id) else []).Perm
      (if (W.store.quad id).bind (·.at W.toEnd) = some h then walkSets W D T.sets id else []) := by
  unfold walkRows walkSets QuadStore.ending
  cases W.store.quad id with
  | none => simp
  | some quad =>
      cases hto : quad.at W.toEnd with
      | none => simp [hto]
      | some target =>
          by_cases htarget : target = h
          · subst htarget
            cases hfrom : quad.at W.fromEnd with
            | none => simp [hfrom]
            | some source =>
                simp only [Option.bind_some, hfrom, hto, Option.map_some, Option.toList_some,
                  List.map_singleton, List.flatMap_singleton, Option.some.injEq, if_true,
                  bindingsOf_cons, bindingsOf_nil, List.append_nil, eq_comm (a := source)]
                exact (product_bindingsOf [] (D.choices quad) T.rows source).trans
                  (Tags.product_perm [] (D.choices quad) (hT source).symm)
          · simp [hto, htarget, bindingsOf_cons]

theorem Agrees.step (hT : T.Agrees) {W : Trail} (hs : W.store.Coherent) (D : QuadSets) :
    (T.step W D).Agrees := by
  obtain ⟨ids, hl⟩ := hs.listed
  intro h
  have hrows : bindingsOf h (T.step W D).rows = T.rows.flatMap fun r => ids.flatMap fun id =>
      if (W.store.quad id).bind (·.at W.fromEnd) = some r.handle then
        bindingsOf h (walkRows W D r.sets id) else [] := by
    simp only [Table.step]
    rw [bindingsOf_flatMap]
    refine List.flatMap_congr fun r _ => ?_
    rw [bindingsOf_boundRows, bindingsOf_flatMap, flatMap_listed hl]
  rw [hrows]
  show ((W.store.quadsWith W.toEnd h).flatMap (walkSets W D T.sets)).Perm _
  rw [flatMap_listed hl]
  refine .trans ?_ (Tags.flatMap_swap T.rows ids _).symm
  exact List.Perm.flatMap_left _ fun id _ => (walk_perm hT W D h id).symm

end Table

/-! ## Plans -/

namespace Plan

variable {store : QuadStore}

mutual

/-- The two halves of the table of a plan agree. -/
theorem agrees_table (hs : store.Coherent) : ∀ p : Plan, (p.table store).Agrees
  | .fixed handles => Table.agrees_leaf handles.nodup fun h => by simp [HandleList.contains]
  | .null | .input => Table.agrees_leaf List.nodup_nil (by simp)
  | .all => Table.agrees_leaf hs.nodup hs.containsNode_iff
  | .and operands primary => Table.agrees_join (agrees_tables hs operands) _
  | .or operands => Table.agrees_concat (agrees_tables hs operands)
  | .not forbidden whole => (agrees_table hs whole).filter _
  | .unique p => Table.agrees_recorded _
  | .save p names => (agrees_table hs p).naming names
  | .limit p n => (agrees_table hs p).limit n
  | .skip p n => (agrees_table hs p).skip n
  | .sort p => (agrees_table hs p).sorted store
  | .step source _ _ via names labels => (agrees_table hs source).step hs _
  | .filter p test => (agrees_table hs p).filter _
  | .map p f => Table.agrees_recorded _
  | .constraint p cs => (agrees_table hs p).filter _
  | .recursive p morphism maxDepth depthNames bindings => Table.agrees_recorded _

theorem agrees_tables (hs : store.Coherent) :
    ∀ ps : List Plan, ∀ T ∈ tables store ps, T.Agrees
  | [], T, hT => by simp [tables] at hT
  | p :: ps, T, hT => by
      rcases List.mem_cons.1 hT with rfl | hT
      · exact agrees_table hs p
      · exact agrees_tables hs ps T hT

end

end Plan

/-! ## What fresh cursors report -/

namespace Roles.Realizes

variable {R : Roles} {T : Table}

theorem report_scan (hR : R.Realizes T.meaning) :
    R.scanner.report .never = (.ok T.rows, .never) := by
  rw [hR.shows.report]
  simp only [Table.meaning, Feed.delivered_ofRows]

theorem report_probe (hR : R.Realizes T.meaning) (h : Handle) :
    R.index.report h .never = (.ok (T.sets h), .never) := by
  obtain ⟨s', hc, hnothing, hfound⟩ := hR.ready.answers h
  unfold Index.report
  rw [hc]
  simp only [Table.meaning, Reply.ofSets] at hnothing hfound ⊢
  cases hs : T.sets h with
  | nil => rfl
  | cons t sets =>
      rw [hs] at hfound
      obtain ⟨s'', ha, -⟩ := (hfound rfl).alternates
      show (R.index.alternates s' .never).report = _
      rw [ha]
      rfl

end Roles.Realizes

namespace Plan

variable {store : QuadStore}

/-- The cursors of a plan without limits that cannot fail realize its table. -/
theorem realizes_table (hs : store.Coherent) {p : Plan} (hp : p.Within store.unlimited) :
    (p.roles store).Realizes (p.table store).meaning := by
  rw [← (tabular_of_unlimited hp).meaning_eq hs]
  exact p.realizes store

/-- Over a store in memory, a fresh index of a plan without limits that cannot fail shows for each
handle the binding sets that a full drain of a fresh scanner has for it, in some order. -/
theorem probe_perm_scan (s : MemoryStore) (hs : s.Addressable) (p : Plan)
    (hp : p.Within s.toStore.unlimited) (h : Handle) :
    ∃ rows sets, (p.roles s.toStore).scanner.report .never = (.ok rows, .never) ∧
      (p.roles s.toStore).index.report h .never = (.ok sets, .never) ∧
      sets.Perm (bindingsOf h rows) := by
  have hc := MemoryStore.coherent hs
  have hR := realizes_table hc hp
  exact ⟨_, _, hR.report_scan, hR.report_probe h, agrees_table hc p h⟩

/-- Whom others follow: the scan and a probe for Bob agree. -/
theorem followed_agrees :
    let p : Plan := .and
      [.filter .all fun v => .ok v.isReference,
        .step .all .subject .object (some (.fixed (.ofList [.ofNat 1]))) ["via"] none] 1
    ∃ rows sets,
      (p.roles MemoryStore.social.toStore).scanner.report .never = (.ok rows, .never) ∧
      (p.roles MemoryStore.social.toStore).index.report (.ofNat 2) .never = (.ok sets, .never) ∧
      sets.Perm (bindingsOf (.ofNat 2) rows) := by
  refine probe_perm_scan .social ⟨by decide +kernel, by decide +kernel⟩ _ ?_ _
  have hvia : ∀ h ∈ (HandleList.ofList [.ofNat 1]).toList,
      h ∈ MemoryStore.social.toStore.nodes := by decide +kernel
  exact ⟨⟨fun h v _ => ⟨_, rfl⟩, trivial⟩, ⟨trivial, hvia, trivial⟩, trivial⟩

end Plan

end GraphQuery
