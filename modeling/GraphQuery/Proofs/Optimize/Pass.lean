import GraphQuery.Proofs.Optimize.Tidy

/-!
# Passes keep what plans show

A pass keeps the probes of a plan, and its rows where their order matters. Wherever an operator has
probes that depend on the order of rows, the pass below it is one that keeps the rows, so the table
above is the very same. Images are the exception: a pass is not told that their probes are read off
rows. So it has to find no intersection below a function on values, unless the order matters anyway.
-/

namespace GraphQuery

/-- Harmless, without bounds and without functions on values. -/
def QuadStore.mapless (store : QuadStore) : Allowance :=
  { store.unlimited with map := fun _ => False }

def QuadStore.unmapped (store : QuadStore) : Allowance :=
  { store.harmless with map := fun _ => False }

theorem QuadStore.mapless_le_unmapped (store : QuadStore) : store.mapless.Le store.unmapped where
  limit _ _ := trivial
  test _ ht := ht
  map _ hf := hf
  literal _ hh := hh

theorem QuadStore.unmapped_le (store : QuadStore) : store.unmapped.Le store.harmless where
  limit _ _ := trivial
  test _ ht := ht
  map _ hf := hf.elim
  literal _ hh := hh

theorem QuadStore.mapless_le (store : QuadStore) : store.mapless.Le store.unlimited where
  limit _ hn := hn
  test _ ht := ht
  map _ hf := hf.elim
  literal _ hh := hh

namespace Table

/-! ## Operators on related tables -/

namespace Same

variable {ordered : Bool} {T U : Table}

theorem filter (h : T.Same ordered U) (keep : Handle → Bool) :
    (T.filter keep).Same ordered (U.filter keep) :=
  ⟨by simp only [Table.filter, h.sets], fun ho => by simp only [Table.filter, h.rows ho]⟩

theorem naming (h : T.Same ordered U) (names : List String) :
    (T.naming names).Same ordered (U.naming names) :=
  ⟨by simp only [Table.naming, h.sets], fun ho => by simp only [Table.naming, h.rows ho]⟩

theorem sorted (h : T.Same ordered U) (store : QuadStore) :
    (T.sorted store).Same ordered (U.sorted store) :=
  ⟨h.sets, fun ho => by simp only [Table.sorted, h.rows ho]⟩

theorem step (h : T.Same ordered U) (W : Trail) (D : QuadSets) :
    (T.step W D).Same ordered (U.step W D) :=
  ⟨by simp only [Table.step, h.sets], fun ho => by simp only [Table.step, h.rows ho]⟩

theorem lacks (h : T.Same ordered U) : T.lacks = U.lacks :=
  funext fun x => by simp only [Table.lacks, h.sets]

end Same

variable {ordered : Bool}

theorem same_concat {Ts Us : List Table} (h : List.Forall₂ (Same ordered) Ts Us) :
    (concat Ts).Same ordered (concat Us) := by
  induction h with
  | nil => exact .refl _
  | cons hT _ ih =>
      refine ⟨funext fun x => ?_, fun ho => ?_⟩
      · have hrest := congrFun ih.sets x
        simp only [concat, List.flatMap_cons, hT.sets] at hrest ⊢
        rw [hrest]
      · have hrest := ih.rows ho
        simp only [concat, List.flatMap_cons, hT.rows ho] at hrest ⊢
        rw [hrest]

/-- A join keeps its probes if all operands do, and its rows if the driver does. -/
theorem same_join {Ts Us : List Table} {d : Nat} (hd : d < Ts.length)
    (hs : Ts.map sets = Us.map sets) (hr : ordered = true → Ts[d]?.map rows = Us[d]?.map rows) :
    (join Ts d).Same ordered (join Us d) := by
  refine ⟨funext fun h => ?_, fun ho => congrArg rows (join_congr hs (hr ho))⟩
  have hlen : Ts.length = Us.length := by simpa using congrArg List.length hs
  have hsets := congrArg (List.map fun s : Handle → List Tags => s h) hs
  rw [List.map_map, List.map_map] at hsets
  rw [join_sets hd, join_sets (hlen ▸ hd)]
  exact congrArg Tags.product hsets

end Table

namespace Plan

variable {store : QuadStore}

/-! ## The rules left -/

theorem table_simplifyStep (fromEnd toEnd : Direction) (names : List String) (source : Simplified)
    (via labels : Option Simplified) :
    (simplifyStep fromEnd toEnd names source via labels).1.table store =
      (source.1.table store).step ⟨store, fromEnd, toEnd⟩
        ⟨(tableOption store (via.map Prod.fst)).map Table.sets, names,
          (tableOption store (labels.map Prod.fst)).map Table.sets⟩ := by
  unfold simplifyStep
  split
  · rename_i hnull
    simp only [Bool.or_eq_true] at hnull
    rcases hnull with (hsource | hvia) | hlabels
    · rw [eq_null_of_isNull hsource]
      exact (Table.step_null _ _).symm
    · obtain ⟨v, rfl, hv⟩ := (Option.any_eq_true ..).1 hvia
      refine (Table.step_eq_null _ _ fun quad => ?_).symm
      simp [QuadSets.choices, tableOption, eq_null_of_isNull hv, table_null, Table.null_sets]
    · obtain ⟨l, rfl, hl⟩ := (Option.any_eq_true ..).1 hlabels
      refine (Table.step_eq_null _ _ fun quad => ?_).symm
      simp only [QuadSets.choices, QuadSets.labelChoices, List.mem_append, tableOption,
        Option.map_some, eq_null_of_isNull hl, table_null]
      cases quad.label with
      | none => exact .inr (List.mem_singleton_self _)
      | some l => exact .inr (List.mem_singleton_self _)
  · rfl

theorem table_and_nil (store : QuadStore) (primary : Nat) :
    table store (.and [] primary) = .null := by
  show Table.join [] (driver [] primary) = Table.leaf [] fun _ => false
  rfl

/-! ## Where the order of rows is read -/

mutual

/-- A pass keeps the order of the rows wherever a function on values reads it. `read` tells whether
one does so above the plan, and `ordered` is what the pass is told. -/
def Orderly : Plan → (read ordered : Bool) → Prop
  | .fixed _, _, _ | .null, _, _ | .all, _, _ | .input, _, _ => True
  | .and operands primary, read, ordered =>
      (read = true → ordered = true) ∧
        OrderlyOperands (driver operands primary) 0 operands read ordered
  | .or operands, read, ordered => OrderlyAll operands read ordered
  | .not forbidden whole, read, ordered =>
      Orderly forbidden false false ∧ Orderly whole read ordered
  | .unique p, _, _ | .limit p _, _, _ | .skip p _, _, _ | .recursive p _ _ _ _, _, _ =>
      Orderly p false true
  | .save p _, read, ordered | .sort p, read, ordered | .filter p _, read, ordered
  | .constraint p _, read, ordered => Orderly p read ordered
  | .map p _, _, ordered => Orderly p true ordered
  | .step source _ _ via _ labels, read, ordered =>
      Orderly source read ordered ∧ OrderlyOption via ∧ OrderlyOption labels

def OrderlyOperands (driver : Nat) : Nat → List Plan → (read ordered : Bool) → Prop
  | _, [], _, _ => True
  | i, p :: ps, read, ordered =>
      Orderly p (read && i == driver) (ordered && i == driver) ∧
        OrderlyOperands driver (i + 1) ps read ordered

def OrderlyAll : List Plan → (read ordered : Bool) → Prop
  | [], _, _ => True
  | p :: ps, read, ordered => Orderly p read ordered ∧ OrderlyAll ps read ordered

def OrderlyOption : Option Plan → Prop
  | none => True
  | some p => Orderly p false false

end

mutual

/-- Without functions on values the order of rows is read nowhere. -/
theorem orderly_of_unmapped :
    ∀ (p : Plan) (ordered : Bool), p.Within store.unmapped → p.Orderly false ordered
  | .fixed _, _, _ | .null, _, _ | .all, _, _ | .input, _, _ => trivial
  | .and operands primary, ordered, hp =>
      ⟨by simp, orderlyOperands_of_unmapped _ 0 operands ordered hp⟩
  | .or operands, ordered, hp => orderlyAll_of_unmapped operands ordered hp
  | .not forbidden whole, ordered, hp =>
      ⟨orderly_of_unmapped forbidden false hp.1, orderly_of_unmapped whole ordered hp.2⟩
  | .unique p, _, hp | .skip p _, _, hp => orderly_of_unmapped p true hp
  | .limit p _, _, hp => orderly_of_unmapped p true hp.2
  | .recursive p _ _ _ _, _, hp => orderly_of_unmapped p true hp.1
  | .save p _, ordered, hp | .sort p, ordered, hp | .constraint p _, ordered, hp =>
      orderly_of_unmapped p ordered hp
  | .filter p _, ordered, hp => orderly_of_unmapped p ordered hp.2
  | .map _ _, _, hp => hp.1.elim
  | .step source _ _ via _ labels, ordered, hp =>
      ⟨orderly_of_unmapped source ordered hp.1, orderlyOption_of_unmapped via hp.2.1,
        orderlyOption_of_unmapped labels hp.2.2⟩

theorem orderlyOperands_of_unmapped (driver : Nat) :
    ∀ (i : Nat) (ps : List Plan) (ordered : Bool), WithinAll store.unmapped ps →
      OrderlyOperands driver i ps false ordered
  | _, [], _, _ => trivial
  | i, p :: ps, ordered, hp =>
      ⟨orderly_of_unmapped p _ hp.1, orderlyOperands_of_unmapped driver (i + 1) ps ordered hp.2⟩

theorem orderlyAll_of_unmapped :
    ∀ (ps : List Plan) (ordered : Bool), WithinAll store.unmapped ps → OrderlyAll ps false ordered
  | [], _, _ => trivial
  | p :: ps, ordered, hp =>
      ⟨orderly_of_unmapped p ordered hp.1, orderlyAll_of_unmapped ps ordered hp.2⟩

theorem orderlyOption_of_unmapped :
    ∀ p : Option Plan, WithinOption store.unmapped p → OrderlyOption p
  | none, _ => trivial
  | some p, hp => orderly_of_unmapped p false hp

end

/-! ## A pass -/

/-- What a pass keeps of a plan: the probes, and the rows if the order matters or is read. -/
structure Kept (store : QuadStore) (ordered : Bool) (p q : Plan) : Prop where
  same : (p.table store).Same ordered (q.table store)
  tidy : q.Tidy (Tabular store)

structure KeptOperands (store : QuadStore) (ordered : Bool) (driver i : Nat) (ps : List Plan)
    (xs : List Simplified) : Prop where
  sets : (ps.map (table store)).map Table.sets = (xs.map fun x => table store x.1).map Table.sets
  rows : ordered = true → ∀ d, i + d = driver →
    (ps.map (table store))[d]?.map Table.rows = (xs.map fun x => table store x.1)[d]?.map Table.rows
  tidy : ∀ x ∈ xs, x.1.Tidy (Tabular store)

structure KeptOption (store : QuadStore) (p : Option Plan) (x : Option Simplified) : Prop where
  sets : (tableOption store p).map Table.sets =
    (tableOption store (x.map Prod.fst)).map Table.sets
  tidy : ∀ y ∈ x, y.1.Tidy (Tabular store)

/-- A limit stays steady above a table that stays the same. -/
theorem Tabular.limit_of_table_eq (hs : store.Coherent) {p q : Plan} {n : Nat}
    (hp : (Plan.limit p n).Tabular store) (hq : q.Tabular store)
    (heq : p.table store = q.table store) : (Plan.limit q n).Tabular store := by
  obtain ⟨-, hn⟩ := (tabular_limit_iff hs).1 hp
  exact (tabular_limit_iff hs).2 ⟨hq, heq ▸ hn⟩

namespace Kept

variable {ordered : Bool} {p : Plan} {x : Simplified}

/-! Each rule keeps its operator where the operands are kept, in their order if the operator reads
it off their rows. -/

theorem fixed (handles : HandleList) (hp : (Plan.fixed handles).Tabular store) :
    Kept store ordered (.fixed handles)
      (if handles.isEmpty then (Plan.null, true) else (.fixed handles, false)).1 := by
  split
  · rename_i hempty
    have hnil : handles.toList = [] := List.isEmpty_iff.1 hempty
    refine ⟨.of_eq (Table.eq_of_parts ?_ fun h => ?_), tidy_null (inherited_tabular store)⟩
    · simp [table, Table.leaf, hnil]
    · simp [table, Table.leaf, HandleList.contains, hnil]
  · exact ⟨.refl _, hp, trivial⟩

theorem and (hs : store.Coherent) {ps : List Plan} {primary : Nat} {xs : List Simplified}
    (h : KeptOperands store ordered (driver ps primary) 0 ps xs) (t : Token) :
    Kept store ordered (.and ps primary)
      (simplifyAnd store ordered (driver ps primary) xs t).1.1 := by
  have hlen : ps.length = xs.length := by simpa using congrArg List.length h.sets
  by_cases hne : ps = []
  · subst hne
    obtain rfl : xs = [] := List.length_eq_zero_iff.1 hlen.symm
    refine ⟨?_, tidy_null (inherited_tabular store)⟩
    rw [table_and_nil]
    exact .refl _
  · have hd : driver ps primary < ps.length := by
      have := List.length_pos_iff.2 hne
      rw [driver]
      omega
    refine ⟨.trans ?_ (same_simplifyAnd hs (hlen ▸ hd) (fun x hx => (h.tidy x hx).solid)
      (fun x hx => (h.tidy x hx).holds)
      (fun q hq => (tidy_opened (inherited_tabular store) h.tidy q hq).holds) _),
      tidy_simplifyAnd (inherited_tabular store) h.tidy _⟩
    show (Table.join (tables store ps) _).Same ordered _
    rw [tables_eq]
    exact Table.same_join (by rw [List.length_map]; exact hd) h.sets
      fun ho => h.rows ho _ (Nat.zero_add _)

theorem or {ps : List Plan} {xs : List Simplified}
    (h : List.Forall₂ (Table.Same ordered) (tables store ps) (tables store (xs.map Prod.fst)))
    (ht : ∀ x ∈ xs, x.1.Tidy (Tabular store)) :
    Kept store ordered (.or ps) (simplifyOr xs).1 := by
  refine ⟨?_, tidy_simplifyOr (inherited_tabular store) ht⟩
  rw [table_simplifyOr]
  exact Table.same_concat h

theorem not {forbidden whole : Plan} {y : Simplified} (hf : Kept store false forbidden x.1)
    (hw : Kept store ordered whole y.1) :
    Kept store ordered (.not forbidden whole) (simplifyNot x y).1 := by
  refine ⟨?_, tidy_simplifyNot (inherited_tabular store) hf.tidy hw.tidy⟩
  show ((whole.table store).filter (forbidden.table store).lacks).Same _ _
  rw [table_simplifyNot, hf.same.lacks]
  exact hw.same.filter _

theorem unique (h : Kept store true p x.1) :
    Kept store ordered (.unique p) (simplifyUnique x).1 := by
  refine ⟨?_, tidy_simplifyUnique (inherited_tabular store) h.tidy⟩
  show (Table.recorded (Table.firstRows (p.table store).rows [])).Same _ _
  rw [table_simplifyUnique, h.same.eq]
  exact .refl _

theorem save (h : Kept store ordered p x.1) (names : List String) :
    Kept store ordered (.save p names) (simplifySave names x).1 := by
  refine ⟨?_, tidy_simplifySave (inherited_tabular store) names h.tidy⟩
  rw [table_simplifySave]
  exact h.same.naming names

theorem limit (hs : store.Coherent) {n : Nat} (hp : (Plan.limit p n).Tabular store)
    (h : Kept store true p x.1) : Kept store ordered (.limit p n) (simplifyLimit n x).1 := by
  refine ⟨?_, tidy_simplifyLimit h.tidy
    (fun _ => hp.limit_of_table_eq hs h.tidy.holds h.same.eq) fun _ _ => Tabular.limit_limit hs⟩
  show ((p.table store).limit n).Same _ _
  rw [table_simplifyLimit, h.same.eq]
  exact .refl _

theorem skip {n : Nat} (hfit : x.1.Skippable n) (h : Kept store true p x.1) :
    Kept store ordered (.skip p n) (simplifySkip n x).1 := by
  have hskip : ∀ {q : Plan} {m : Nat}, (Plan.skip q m).Tabular store ↔ q.Tabular store :=
    (hereditary_tabular store).skip
  refine ⟨?_, tidy_simplifySkip h.tidy (fun _ => hskip.2 h.tidy.holds)
    fun _ _ _ hq => hskip.2 (hskip.1 (hskip.1 hq))⟩
  show ((p.table store).skip n).Same _ _
  rw [table_simplifySkip hfit, h.same.eq]
  exact .refl _

theorem sort (hs : store.Coherent) (h : Kept store ordered p x.1) :
    Kept store ordered (.sort p) (simplifySort x).1 := by
  refine ⟨?_, tidy_simplifySort (inherited_tabular store) h.tidy⟩
  rw [table_simplifySort fun r hr => (hs.resolve_iff r.handle).2 (h.tidy.holds.safeRows hs r hr).1]
  exact h.same.sorted store

theorem step {fromEnd toEnd : Direction} {names : List String} {via labels : Option Plan}
    {v l : Option Simplified} (h : Kept store ordered p x.1) (hv : KeptOption store via v)
    (hl : KeptOption store labels l) :
    Kept store ordered (.step p fromEnd toEnd via names labels)
      (simplifyStep fromEnd toEnd names x v l).1 := by
  refine ⟨?_, tidy_simplifyStep (inherited_tabular store) _ _ _ h.tidy hv.tidy hl.tidy⟩
  show ((p.table store).step ⟨store, fromEnd, toEnd⟩ ⟨(tableOption store via).map Table.sets, names,
    (tableOption store labels).map Table.sets⟩).Same _ _
  rw [table_simplifyStep, hv.sets, hl.sets]
  exact h.same.step _ _

theorem filter {test : ValueTest} (hp : (Plan.filter p test).Tabular store)
    (h : Kept store ordered p x.1) : Kept store ordered (.filter p test) (.filter x.1 test) :=
  ⟨h.same.filter _, ⟨⟨hp.within.1, h.tidy.holds.within⟩, h.tidy.holds.steady⟩, trivial⟩

theorem map {f : ValueMap} (hp : (Plan.map p f).Tabular store) (h : Kept store true p x.1) :
    Kept store ordered (.map p f) (.map x.1 f) := by
  refine ⟨?_, ⟨⟨hp.within.1, h.tidy.holds.within⟩, h.tidy.holds.steady⟩, trivial⟩
  show (Table.recorded (Table.imageRows store f (p.table store).rows)).Same _
    (.recorded (Table.imageRows store f (x.1.table store).rows))
  rw [h.same.rows rfl]
  exact .refl _

theorem constraint (h : Kept store ordered p x.1) (cs : List Constraint) :
    Kept store ordered (.constraint p cs) (simplifyConstraint store cs x).1 := by
  refine ⟨?_, tidy_simplifyConstraint (hereditary_tabular store).toSelective cs h.tidy⟩
  rw [table_simplifyConstraint]
  exact h.same.filter _

theorem recursive {morphism : Plan} {maxDepth : Nat} {depthNames : List String}
    {bindings : ClosureBindings}
    (hp : (Plan.recursive p morphism maxDepth depthNames bindings).Tabular store)
    (h : Kept store true p x.1) :
    Kept store ordered (.recursive p morphism maxDepth depthNames bindings)
      (simplifyRecursive morphism maxDepth depthNames bindings x).1 := by
  refine ⟨?_, tidy_simplifyRecursive (inherited_tabular store)
    ⟨⟨h.tidy.holds.within, hp.within.2⟩, h.tidy.holds.steady⟩⟩
  show ((p.table store).closure bindings maxDepth _ _).Same _ _
  rw [table_simplifyRecursive, h.same.eq]
  exact .refl _

end Kept

mutual

/-- A pass keeps the probes, and the rows if the order matters. -/
theorem kept_optimize (hs : store.Coherent) :
    ∀ (p : Plan) (read ordered : Bool) (t : Token), p.Tabular store → p.SkipsFit →
      p.Orderly read ordered → Kept store (read || ordered) p (optimize store ordered p t).1.1
  | .fixed handles, _, _, _, hp, _, _ => .fixed handles hp
  | .null, _, _, _, hp, _, _ | .all, _, _, _, hp, _, _ | .input, _, _, _, hp, _, _ =>
      ⟨.refl _, hp, trivial⟩
  | .and operands primary, read, ordered, t, hp, hf, ho => by
      obtain ⟨hread, ho⟩ := ho
      have hflag : (read || ordered) = ordered := by
        cases read with
        | true => rw [hread rfl]; rfl
        | false => rfl
      rw [hflag]
      exact .and hs (kept_optimizeOperands hs (driver operands primary) 0 operands read ordered t
        ((hereditary_tabular store).and.1 hp) (selective_skipsFit.and.1 hf) ho) _
  | .or operands, read, ordered, t, hp, hf, ho =>
      have hall := kept_optimizeAll hs operands read ordered t ((hereditary_tabular store).or.1 hp)
        (selective_skipsFit.or.1 hf) ho
      .or hall.1 hall.2
  | .not forbidden whole, read, ordered, t, hp, hf, ho =>
      have hp := (hereditary_tabular store).not.1 hp
      have hf := selective_skipsFit.not.1 hf
      .not (kept_optimize hs forbidden false false t hp.1 hf.1 ho.1)
        (kept_optimize hs whole read ordered (optimize store false forbidden t).2 hp.2 hf.2 ho.2)
  | .unique p, _, _, t, hp, hf, ho =>
      (kept_optimize hs p false true t ((hereditary_tabular store).unique.1 hp) hf ho).unique
  | .save p names, read, ordered, t, hp, hf, ho =>
      (kept_optimize hs p read ordered t ((hereditary_tabular store).save.1 hp) hf ho).save names
  | .limit p _, _, _, t, hp, hf, ho =>
      .limit hs hp (kept_optimize hs p false true t ((tabular_limit_iff hs).1 hp).1 hf ho)
  | .skip p n, _, _, t, hp, hf, ho =>
      have hp := (hereditary_tabular store).skip.1 hp
      (kept_optimize hs p false true t hp hf.of_skip ho).skip (hf.skippable_optimize true t)
  | .sort p, read, ordered, t, hp, hf, ho =>
      (kept_optimize hs p read ordered t ((hereditary_tabular store).sort.1 hp) hf ho).sort hs
  | .step source _ _ via _ labels, read, ordered, t, hp, hf, ho =>
      have hp := (hereditary_tabular store).step.1 hp
      have hf := selective_skipsFit.step.1 hf
      (kept_optimize hs source read ordered t hp.1 hf.1 ho.1).step
        (kept_optimizeOption hs via (optimize store ordered source t).2 hp.2.1 hf.2.1 ho.2.1)
        (kept_optimizeOption hs labels
          (optimizeOption store via (optimize store ordered source t).2).2 hp.2.2 hf.2.2 ho.2.2)
  | .filter p _, read, ordered, t, hp, hf, ho =>
      .filter hp (kept_optimize hs p read ordered t ⟨hp.within.2, hp.steady⟩ hf ho)
  | .map p _, _, ordered, t, hp, hf, ho =>
      .map hp (kept_optimize hs p true ordered t ⟨hp.within.2, hp.steady⟩ hf ho)
  | .constraint p cs, read, ordered, t, hp, hf, ho =>
      (kept_optimize hs p read ordered t ((hereditary_tabular store).constraint.1 hp) hf
        ho).constraint cs
  | .recursive p _ _ _ _, _, _, t, hp, hf, ho =>
      .recursive hp (kept_optimize hs p false true t ⟨hp.within.1, hp.steady⟩ hf ho)

theorem kept_optimizeOperands (hs : store.Coherent) (driver : Nat) :
    ∀ (i : Nat) (ps : List Plan) (read ordered : Bool) (t : Token),
      (∀ p ∈ ps, p.Tabular store) → (∀ p ∈ ps, p.SkipsFit) →
      OrderlyOperands driver i ps read ordered →
      KeptOperands store ordered driver i ps (optimizeOperands store ordered driver i ps t).1
  | _, [], _, _, _, _, _, _ => ⟨rfl, fun _ _ _ => rfl, fun x hx => by cases hx⟩
  | i, p :: ps, read, ordered, t, hp, hf, ho => by
      obtain ⟨hp, hps⟩ := List.forall_mem_cons.1 hp
      obtain ⟨hf, hfs⟩ := List.forall_mem_cons.1 hf
      have hfirst := kept_optimize hs p (read && i == driver) (ordered && i == driver) t hp hf ho.1
      have hrest := kept_optimizeOperands hs driver (i + 1) ps read ordered
        (optimize store (ordered && i == driver) p t).2 hps hfs ho.2
      refine ⟨congrArg₂ List.cons hfirst.same.sets hrest.sets, fun hordered d hd => ?_,
        fun x hx => ?_⟩
      · cases d with
        | zero =>
            obtain rfl : i = driver := hd
            exact congrArg some (hfirst.same.rows (by simp [hordered]))
        | succ d => exact hrest.rows hordered d (by omega)
      · rcases List.mem_cons.1 hx with rfl | hx
        · exact hfirst.tidy
        · exact hrest.tidy x hx

theorem kept_optimizeAll (hs : store.Coherent) :
    ∀ (ps : List Plan) (read ordered : Bool) (t : Token), (∀ p ∈ ps, p.Tabular store) →
      (∀ p ∈ ps, p.SkipsFit) → OrderlyAll ps read ordered →
      List.Forall₂ (Table.Same (read || ordered)) (tables store ps)
          (tables store ((optimizeAll store ordered ps t).1.map Prod.fst)) ∧
        ∀ x ∈ (optimizeAll store ordered ps t).1, x.1.Tidy (Tabular store)
  | [], _, _, _, _, _, _ => ⟨.nil, fun x hx => by cases hx⟩
  | p :: ps, read, ordered, t, hp, hf, ho => by
      obtain ⟨hp, hps⟩ := List.forall_mem_cons.1 hp
      obtain ⟨hf, hfs⟩ := List.forall_mem_cons.1 hf
      have hfirst := kept_optimize hs p read ordered t hp hf ho.1
      obtain ⟨hrest, htidy⟩ := kept_optimizeAll hs ps read ordered (optimize store ordered p t).2
        hps hfs ho.2
      refine ⟨.cons hfirst.same hrest, fun x hx => ?_⟩
      rcases List.mem_cons.1 hx with rfl | hx
      · exact hfirst.tidy
      · exact htidy x hx

theorem kept_optimizeOption (hs : store.Coherent) :
    ∀ (p : Option Plan) (t : Token), (∀ q ∈ p, q.Tabular store) → (∀ q ∈ p, q.SkipsFit) →
      OrderlyOption p → KeptOption store p (optimizeOption store p t).1
  | none, _, _, _, _ => ⟨rfl, fun x hx => by cases hx⟩
  | some p, t, hp, hf, ho => by
      have hk := kept_optimize hs p false false t (hp p rfl) (hf p rfl) ho
      refine ⟨congrArg some hk.same.sets, fun x hx => ?_⟩
      obtain rfl : (optimize store false p t).1 = x := Option.some.inj hx
      exact hk.tidy

end

/-- Passes until one changes nothing keep the probes, if no counts of skips wrap around. -/
theorem kept_normalize (hs : store.Coherent) {passes : Nat} {p q : Plan} {t t' : Token}
    (hp : p.Within store.unmapped) (hsteady : p.Steady store) (hfit : p.SkipsFit)
    (h : normalize store passes p t = (.ok q, t')) :
    (p.table store).Same false (q.table store) ∧ q.Tabular store := by
  have htabular : p.Tabular store := ⟨Within.mono store.unmapped_le p hp, hsteady⟩
  have hkept : (q.Within store.unmapped ∧ q.SkipsFit) ∧
      (p.table store).Same false (q.table store) ∧ q.Tabular store :=
    passesLeft_keeps (P := fun q => (q.Within store.unmapped ∧ q.SkipsFit) ∧
        (p.table store).Same false (q.table store) ∧ q.Tabular store)
      (fun q t ⟨⟨hq, hfit⟩, hsame, htabular⟩ =>
        have hk := kept_optimize hs q false false t htabular hfit (orderly_of_unmapped q false hq)
        have hthrifty := (tidy_optimize store q false t _ hq (Nat.le_refl _)).holds
        ⟨⟨hthrifty.1, Nat.lt_of_le_of_lt hthrifty.2 hfit⟩, hsame.trans hk.same, hk.tidy.holds⟩)
      h ⟨⟨hp, hfit⟩, .refl _, htabular⟩
  exact hkept.2

theorem same_normalize (hs : store.Coherent) {passes : Nat} {p q : Plan} {t t' : Token}
    (hp : p.Within store.mapless) (hfit : p.SkipsFit)
    (h : normalize store passes p t = (.ok q, t')) :
    (p.table store).Same false (q.table store) :=
  (kept_normalize hs (Within.mono store.mapless_le_unmapped p hp)
    (steady_of_unlimited p (Within.mono store.mapless_le p hp)) hfit h).1

end Plan

end GraphQuery
