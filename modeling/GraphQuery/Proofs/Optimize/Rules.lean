import GraphQuery.Plan.Optimize
import GraphQuery.Proofs.Agreement
import GraphQuery.Proofs.Heights
import GraphQuery.Proofs.Value.Order

/-!
# Rules for single operators

Each rule for an operator with one way to be scanned gives a plan with the very same table. What
the rules use is the algebra of tables: an empty table absorbs, operators of one kind merge.
-/

namespace GraphQuery

namespace Table

/-- Results among these handles, of which scans and probes tell the same. -/
structure Proper (ok : Handle → Prop) (T : Table) : Prop where
  agrees : T.Agrees
  safe : SafeRows ok T.rows

section Proper

variable {ok : Handle → Prop} {T : Table}

theorem Proper.sets_eq_nil (hT : T.Proper ok) {h : Handle} (hh : ¬ ok h) : T.sets h = [] := by
  have hrows : bindingsOf h T.rows = [] := by
    rw [bindingsOf_eq, List.flatMap_eq_nil_iff]
    intro r hr
    refine if_neg fun heq => hh ?_
    rw [← heq]
    exact (hT.safe r hr).1
  exact List.perm_nil.1 (hrows ▸ hT.agrees h)

theorem Proper.rows_eq_nil (hT : T.Proper ok) (hs : ∀ h, T.sets h = []) : T.rows = [] := by
  refine List.eq_nil_iff_forall_not_mem.2 fun r hr => (hT.safe r hr).2 ?_
  have hnil : bindingsOf r.handle T.rows = [] := List.nil_perm.1 (hs r.handle ▸ hT.agrees r.handle)
  rw [bindingsOf_eq, List.flatMap_eq_nil_iff] at hnil
  have hr := hnil r hr
  rwa [if_pos rfl] at hr

end Proper

theorem eq_of_parts {T U : Table} (hr : T.rows = U.rows) (hs : ∀ h, T.sets h = U.sets h) :
    T = U := by
  obtain ⟨rows, sets⟩ := T
  obtain ⟨rows', sets'⟩ := U
  simp only [Table.mk.injEq]
  exact ⟨hr, funext hs⟩

def null : Table :=
  leaf [] fun _ => false

theorem null_sets (h : Handle) : null.sets h = [] :=
  rfl

theorem null_rows : null.rows = [] :=
  rfl

/-! ## Names -/

theorem naming_null (names : List String) : null.naming names = null :=
  rfl

theorem naming_nil (T : Table) : T.naming [] = T := by
  refine eq_of_parts ?_ fun h => ?_
  · simp [naming, Tags.insertAll_nil]
  · simp [naming, Tags.insertAll_nil]

theorem mem_mergeNames {name : String} {inner outer : List String} :
    name ∈ Plan.mergeNames inner outer ↔ name ∈ inner ∨ name ∈ outer := by
  unfold Plan.mergeNames
  induction outer generalizing inner with
  | nil => simp
  | cons n outer ih =>
      rw [List.foldl_cons, ih]
      by_cases hn : inner.contains n = true
      · rw [if_pos hn]
        have : n ∈ inner := by simpa using hn
        constructor
        · intro h
          exact h.imp_right (List.mem_cons_of_mem _)
        · intro h
          rcases h with h | h
          · exact .inl h
          · rcases List.mem_cons.1 h with rfl | h
            · exact .inl this
            · exact .inr h
      · rw [if_neg hn]
        simp [or_assoc]

theorem insertAll_insertAll (t : Tags) (inner outer : List String) (h : Handle) :
    (t.insertAll inner h).insertAll outer h = t.insertAll (Plan.mergeNames inner outer) h := by
  refine Tags.ext_get? fun name => ?_
  simp only [Tags.get?_insertAll, mem_mergeNames]
  by_cases hi : name ∈ inner
  · by_cases ho : name ∈ outer
    · simp [hi, ho]
    · simp [hi, ho]
  · simp [hi]

theorem naming_naming (T : Table) (inner outer : List String) :
    (T.naming inner).naming outer = T.naming (Plan.mergeNames inner outer) := by
  refine eq_of_parts ?_ fun h => ?_
  · simp [naming, insertAll_insertAll, Function.comp_def]
  · simp [naming, insertAll_insertAll, Function.comp_def]

/-! ## Sieves -/

theorem filter_null (keep : Handle → Bool) : null.filter keep = null := by
  refine eq_of_parts rfl fun h => ?_
  simp [filter, null_sets]

theorem filter_true (T : Table) {keep : Handle → Bool} (hk : ∀ h, keep h = true) :
    T.filter keep = T := by
  refine eq_of_parts ?_ fun h => ?_
  · simp [filter, hk]
  · simp [filter, hk]

theorem filter_filter (T : Table) (k₁ k₂ : Handle → Bool) :
    (T.filter k₁).filter k₂ = T.filter fun h => k₁ h && k₂ h := by
  refine eq_of_parts ?_ fun h => ?_
  · simp [filter, Bool.and_comm]
  · by_cases hk : k₂ h = true
    · simp [filter, hk]
    · simp [filter, hk]

theorem filter_leaf (handles : List Handle) (keep : Handle → Bool) :
    (leaf handles handles.contains).filter keep =
      leaf (handles.filter keep) (handles.filter keep).contains := by
  refine eq_of_parts ?_ fun h => ?_
  · rw [filter, leaf, leaf, List.filter_map]
    rfl
  · by_cases hk : keep h = true
    · simp [filter, leaf, hk]
    · simp [filter, leaf, hk]

/-! ## First rows and pages -/

theorem firstRows_firstRows (rows : List Row) :
    ∀ seen, firstRows (firstRows rows seen) seen = firstRows rows seen := by
  induction rows with
  | nil => exact fun _ => rfl
  | cons r rows ih =>
      intro seen
      by_cases hs : seen.contains r.handle = true
      · rw [firstRows, if_pos hs]
        exact ih seen
      · rw [firstRows, if_neg hs, firstRows, if_neg hs, ih]

theorem recorded_nil : recorded [] = null :=
  rfl

theorem cut_cut (m n : Nat) (rows : List Row) : cut n (cut m rows) = cut (min m n) rows := by
  induction rows generalizing m n with
  | nil => rfl
  | cons r rows ih =>
      by_cases hm : m = 0
      · rw [hm, cut_zero, Nat.zero_min, cut_zero]
        rfl
      · by_cases hn : n = 0
        · rw [hn, cut_zero, Nat.min_zero, cut_zero]
        · have hmin : min m n ≠ 0 := by omega
          rw [cut_cons hm, cut_cons hn, cut_cons hmin, ih, List.take_take, List.length_take,
            Nat.min_comm n m]
          congr 2
          omega

theorem limit_null (n : Nat) : null.limit n = null := by
  unfold limit
  split
  · rfl
  · rfl

/-- Of stacked limits the smaller one counts, but zero is no bound. -/
theorem limit_limit (T : Table) (m : Nat) {n : Nat} (hn : n ≠ 0) :
    (T.limit m).limit n = T.limit (if m = 0 then n else min m n) := by
  by_cases hm : m = 0
  · rw [if_pos hm, hm]
    rfl
  · have hmin : min m n ≠ 0 := by omega
    rw [if_neg hm, limit, limit, limit, if_neg hn, if_neg hm, if_neg hmin, ← cut_cut]
    rfl

theorem skip_null (n : Nat) : null.skip n = null := by
  unfold skip
  split
  · rfl
  · rw [null_rows, List.drop_nil, recorded_nil]

theorem skip_skip (T : Table) (m : Nat) {n : Nat} (hn : n ≠ 0) :
    (T.skip m).skip n = T.skip (m + n) := by
  rw [skip, if_neg hn, skip_rows, List.drop_drop, skip, if_neg (by omega)]

/-! ## Sorted rows -/

section Sorted

variable {store : QuadStore}

def valueAt (store : QuadStore) (r : Row) : Value :=
  (store.resolve r.handle).getD default

theorem notAfter_eq {r q : Row} (hr : (store.resolve r.handle).isSome)
    (hq : (store.resolve q.handle).isSome) :
    store.notAfter r q = ((valueAt store r).totalCompare (valueAt store q)).isLE := by
  obtain ⟨v, hv⟩ := Option.isSome_iff_exists.1 hr
  obtain ⟨w, hw⟩ := Option.isSome_iff_exists.1 hq
  simp only [QuadStore.notAfter, valueAt, hv, hw, Option.getD_some]

/-- Rows with values are sorted by these. -/
theorem mergeSort_notAfter {rows : List Row}
    (hr : ∀ r ∈ rows, (store.resolve r.handle).isSome) :
    rows.mergeSort store.notAfter =
      rows.mergeSort fun r q => ((valueAt store r).totalCompare (valueAt store q)).isLE := by
  have := List.map_mergeSort (f := id) (l := rows) (r := store.notAfter)
    (s := fun r q => ((valueAt store r).totalCompare (valueAt store q)).isLE)
    fun r hm q hm' => notAfter_eq (hr r hm) (hr q hm')
  simpa using this

theorem sorted_sorted {T : Table} (hr : ∀ r ∈ T.rows, (store.resolve r.handle).isSome) :
    (T.sorted store).sorted store = T.sorted store := by
  have hr' : ∀ r ∈ T.rows.mergeSort store.notAfter, (store.resolve r.handle).isSome :=
    fun r hm => hr r (List.mem_mergeSort.1 hm)
  refine eq_of_parts ?_ fun h => rfl
  show (T.rows.mergeSort store.notAfter).mergeSort store.notAfter = T.rows.mergeSort store.notAfter
  rw [mergeSort_notAfter hr', mergeSort_notAfter hr]
  refine List.mergeSort_of_pairwise (List.pairwise_mergeSort ?_ ?_ T.rows)
  · exact fun a b c hab hbc => Value.isLE_trans hab hbc
  · exact fun a b => Value.isLE_total _ _

theorem sorted_null : null.sorted store = null := by
  refine eq_of_parts ?_ fun h => rfl
  show ([] : List Row).mergeSort store.notAfter = []
  simp

end Sorted

/-! ## Unions -/

theorem concat_append (Ts Us : List Table) :
    (concat (Ts ++ Us)).rows = (concat Ts).rows ++ (concat Us).rows ∧
      ∀ h, (concat (Ts ++ Us)).sets h = (concat Ts).sets h ++ (concat Us).sets h := by
  refine ⟨?_, fun h => ?_⟩
  · simp [concat]
  · simp [concat]

theorem concat_singleton (T : Table) : concat [T] = T := by
  refine eq_of_parts ?_ fun h => ?_
  · simp [concat]
  · simp [concat]

/-! ## Steps and closures -/

theorem step_null (W : Trail) (D : QuadSets) : null.step W D = null := by
  refine eq_of_parts rfl fun h => ?_
  show (W.store.quadsWith W.toEnd h).flatMap (walkSets W D null.sets) = []
  refine List.flatMap_eq_nil_iff.2 fun id _ => List.flatMap_eq_nil_iff.2 fun p _ => ?_
  exact Tags.product_eq_nil_iff.2 (List.mem_cons_self ..)

/-- Where every quad is rejected nothing is reached. -/
theorem step_eq_null (T : Table) (W : Trail) {D : QuadSets}
    (hD : ∀ quad, [] ∈ D.choices quad) : T.step W D = null := by
  have hnil : ∀ (own : List Tags) quad, Tags.product (own :: D.choices quad) = [] :=
    fun own quad => Tags.product_eq_nil_iff.2 (List.mem_cons_of_mem _ (hD quad))
  refine eq_of_parts ?_ fun h => ?_
  · refine List.flatMap_eq_nil_iff.2 fun r _ => ?_
    rw [boundRows, List.filter_eq_nil_iff]
    intro q hq
    obtain ⟨id, -, hq⟩ := List.mem_flatMap.1 hq
    obtain ⟨p, -, rfl⟩ := List.mem_map.1 hq
    simp [hnil]
  · refine List.flatMap_eq_nil_iff.2 fun id _ => List.flatMap_eq_nil_iff.2 fun p _ => ?_
    exact hnil _ _

theorem closure_null (bindings : ClosureBindings) (maxDepth : Nat)
    (tagsAt : Nat → Tags → Tags) (expand : Reached → Delivered) :
    null.closure bindings maxDepth tagsAt expand = null := by
  have hdone : (Feed.ofRows []).closure bindings maxDepth tagsAt expand = .done := by
    show Feed.levels bindings maxDepth tagsAt expand [] [] 0 = .done
    rw [Feed.levels, dif_neg (by simp)]
  unfold closure
  rw [null_rows, hdone]
  rfl

end Table

/-! ## The rules -/

namespace Plan

variable {store : QuadStore} {p q : Plan} {changed : Bool}

theorem eq_null_of_isNull (hp : p.isNull = true) : p = .null := by
  cases p <;> simp_all [isNull]

theorem table_null : table store .null = Table.null :=
  rfl

theorem table_simplifyNot (forbidden whole : Simplified) :
    (simplifyNot forbidden whole).1.table store =
      (whole.1.table store).filter (forbidden.1.table store).lacks := by
  obtain ⟨f, cf⟩ := forbidden
  obtain ⟨w, cw⟩ := whole
  unfold simplifyNot
  by_cases hn : f.isNull || w.isNull
  · simp only [hn, if_true]
    rcases (Bool.or_eq_true _ _).mp hn with hf | hw
    · rw [eq_null_of_isNull hf]
      exact (Table.filter_true _ fun h => rfl).symm
    · rw [eq_null_of_isNull hw, table_null, Table.filter_null]
  · simp only [hn, Bool.false_eq_true, if_false]
    rfl

theorem table_simplifyUnique (x : Simplified) :
    (simplifyUnique x).1.table store = .recorded (Table.firstRows (x.1.table store).rows []) := by
  unfold simplifyUnique
  split
  · rfl
  · exact (congrArg Table.recorded (Table.firstRows_firstRows _ [])).symm
  · rfl

theorem table_simplifySave (names : List String) (x : Simplified) :
    (simplifySave names x).1.table store = (x.1.table store).naming names := by
  obtain ⟨p, c⟩ := x
  unfold simplifySave
  by_cases hn : names.isEmpty || p.isNull
  · simp only [hn, if_true]
    rcases (Bool.or_eq_true _ _).mp hn with hn | hp
    · rw [List.isEmpty_iff.1 hn, Table.naming_nil]
    · rw [eq_null_of_isNull hp, table_null, Table.naming_null]
  · simp only [hn, Bool.false_eq_true, if_false]
    split
    · exact (Table.naming_naming _ _ _).symm
    · rfl

theorem table_simplifyLimit (n : Nat) (x : Simplified) :
    (simplifyLimit n x).1.table store = (x.1.table store).limit n := by
  obtain ⟨p, c⟩ := x
  unfold simplifyLimit
  by_cases hn : n = 0
  · subst hn
    rfl
  · by_cases hp : p.isNull = true
    · simp only [hp, Bool.or_true, if_true]
      rw [eq_null_of_isNull hp, table_null, Table.limit_null]
    · simp only [hn, hp, decide_false, Bool.or_self, Bool.false_eq_true, if_false]
      split
      · exact (Table.limit_limit _ _ hn).symm
      · rfl

/-- Stacked skips are one, unless the sum of their counts wraps around. -/
theorem table_simplifySkip {n : Nat} {x : Simplified} (hfit : x.1.Skippable n) :
    (simplifySkip n x).1.table store = (x.1.table store).skip n := by
  obtain ⟨p, c⟩ := x
  unfold simplifySkip
  by_cases hn : n = 0
  · subst hn
    rfl
  · by_cases hp : p.isNull = true
    · simp only [hp, Bool.or_true, if_true]
      rw [eq_null_of_isNull hp, table_null, Table.skip_null]
    · simp only [hn, hp, decide_false, Bool.or_self, Bool.false_eq_true, if_false]
      split
      next q m =>
        rw [Nat.mod_eq_of_lt hfit]
        exact (Table.skip_skip _ _ hn).symm
      next => rfl

theorem table_simplifySort {x : Simplified}
    (hr : ∀ r ∈ (x.1.table store).rows, (store.resolve r.handle).isSome) :
    (simplifySort x).1.table store = (x.1.table store).sorted store := by
  unfold simplifySort
  split
  · exact Table.sorted_null.symm
  · rename_i q _
    have hq : ∀ r ∈ (q.table store).rows, (store.resolve r.handle).isSome :=
      fun r hm => hr r (List.mem_mergeSort.2 hm)
    exact (Table.sorted_sorted hq).symm
  · rfl

theorem table_simplifyRecursive (morphism : Plan) (maxDepth : Nat) (depthNames : List String)
    (bindings : ClosureBindings) (x : Simplified) :
    (simplifyRecursive morphism maxDepth depthNames bindings x).1.table store =
      (x.1.table store).closure bindings maxDepth (Closure.tagsAt store depthNames)
        fun frontier => (meaningOn store (.level frontier) morphism).feed.delivered := by
  unfold simplifyRecursive
  split
  · exact (Table.closure_null _ _ _ _).symm
  · rfl

theorem table_simplifyConstraint (constraints : List Constraint) (x : Simplified) :
    (simplifyConstraint store constraints x).1.table store =
      (x.1.table store).filter
        (Table.accepts store fun v => .ok (constraints.all (·.holds v))) := by
  unfold simplifyConstraint
  split
  · rename_i q inner _
    refine .trans ?_ (Table.filter_filter _ _ _).symm
    show (q.table store).filter _ = (q.table store).filter _
    congr 1
    funext h
    unfold Table.accepts
    cases store.resolve h <;> simp
  · rename_i handles _
    split
    · exact (Table.filter_leaf handles.toList _).symm
    · rfl
  · rfl

theorem table_flattenUnion (branches : List Simplified) :
    Table.concat (tables store (flattenUnion branches).1) =
      Table.concat (tables store (branches.map Prod.fst)) := by
  rw [tables_eq, tables_eq]
  induction branches with
  | nil => rfl
  | cons x rest ih =>
      obtain ⟨p, c⟩ := x
      have hcons : ∀ (T : Table) {Us Vs : List Table}, Table.concat Us = Table.concat Vs →
          Table.concat (T :: Us) = Table.concat (T :: Vs) := by
        intro T Us Vs h
        have hU := Table.concat_append [T] Us
        have hV := Table.concat_append [T] Vs
        rw [h] at hU
        exact Table.eq_of_parts (hU.1.trans hV.1.symm) fun h => (hU.2 h).trans (hV.2 h).symm
      unfold flattenUnion
      simp only [List.map_cons]
      split
      · refine ih.trans (Table.eq_of_parts rfl fun h => ?_)
        show _ = Table.null.sets h ++ _
        rw [Table.null_sets]
        rfl
      · rename_i qs
        have happend := Table.concat_append (qs.map (table store))
          ((flattenUnion rest).1.map (table store))
        have hor := Table.concat_append [table store (.or qs)]
          ((rest.map Prod.fst).map (table store))
        have heq : table store (.or qs) = Table.concat (qs.map (table store)) := by
          rw [← tables_eq]
          rfl
        rw [← List.map_append, ih] at happend
        rw [Table.concat_singleton, List.singleton_append] at hor
        rw [heq] at hor ⊢
        exact Table.eq_of_parts (happend.1.trans hor.1.symm)
          fun h => (happend.2 h).trans (hor.2 h).symm
      · exact hcons _ ih

theorem table_simplifyOr (branches : List Simplified) :
    (simplifyOr branches).1.table store =
      Table.concat (tables store (branches.map Prod.fst)) := by
  have hflat : Table.concat (tables store (flattenUnion branches).1) = _ :=
    table_flattenUnion branches
  unfold simplifyOr
  split
  · rename_i heq
    rw [← hflat, heq]
    rfl
  · rename_i p _ heq
    rw [← hflat, heq]
    exact (Table.concat_singleton _).symm
  · rename_i ps c _ _ heq
    rw [heq] at hflat
    exact hflat

end Plan

end GraphQuery
