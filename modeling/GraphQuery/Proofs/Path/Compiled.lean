import GraphQuery.Proofs.Collect
import GraphQuery.Proofs.Path.Relation
import Mathlib.Data.List.Dedup

/-!
# Compiled paths implement what they relate

The rows of a table, one for each binding set, are acted on by the operators of plans as rows are by
the operations of paths, up to their order. By induction on how deeply paths are nested, the plan of
a path collects the rows that the path relates.
-/

namespace GraphQuery

/-! ## Entries of tables -/

def Row.entries (r : Row) : List ResultRow :=
  r.sets.map (ResultRow.mk r.handle)

namespace Table

def entries (T : Table) : List ResultRow :=
  T.rows.flatMap Row.entries

variable {T U : Table}

theorem entries_boundRows (rows : List Row) :
    (boundRows rows).flatMap Row.entries = rows.flatMap Row.entries := by
  induction rows with
  | nil => rfl
  | cons r rows ih =>
      rw [boundRows_cons, List.flatMap_cons]
      by_cases hr : r.sets = []
      · rw [if_pos hr, ih, Row.entries, hr]
        rfl
      · rw [if_neg hr, List.flatMap_cons, ih]

theorem entries_leaf (handles : List Handle) (mem : Handle → Bool) :
    (leaf handles mem).entries = handles.map (⟨·, .empty⟩) := by
  rw [entries, leaf, List.flatMap_map]
  exact List.flatMap_pure_eq_map _ _

theorem entries_filter (keep : Handle → Bool) :
    (T.filter keep).entries = T.entries.filter fun r => keep r.id := by
  rw [entries, entries, filter]
  induction T.rows with
  | nil => rfl
  | cons r rows ih =>
      rw [List.filter_cons, List.flatMap_cons, List.filter_append, ← ih]
      by_cases hk : keep r.handle = true
      · have : r.entries.filter (fun x => keep x.id) = r.entries := by
          simp [Row.entries, hk]
        rw [if_pos hk, List.flatMap_cons, this]
      · have : r.entries.filter (fun x => keep x.id) = [] := by
          simp [Row.entries, hk]
        rw [if_neg hk, this, List.nil_append]

theorem entries_naming (names : List String) :
    (T.naming names).entries = T.entries.map fun r => ⟨r.id, r.tags.insertAll names r.id⟩ := by
  rw [entries, entries, naming, List.flatMap_map, List.map_flatMap]
  refine List.flatMap_congr fun r _ => ?_
  simp [Row.entries]

theorem entries_concat (Ts : List Table) : (concat Ts).entries = Ts.flatMap entries := by
  rw [entries, concat, List.flatMap_assoc]
  rfl

theorem entries_images {store : QuadStore} {f : ValueMap} {image? : Handle → Option Handle}
    (hf : ∀ r ∈ T.rows, imageOf store f r.handle =
      match image? r.handle with
      | none => .nothing
      | some h => .found h) :
    (recorded (imageRows store f T.rows)).entries =
      T.entries.filterMap fun r => (image? r.id).map (⟨·, r.tags⟩) := by
  show (imageRows store f T.rows).flatMap Row.entries = (T.rows.flatMap Row.entries).filterMap _
  generalize T.rows = rows at hf
  induction rows with
  | nil => rfl
  | cons r rows ih =>
      have hrest := ih fun q hq => hf q (List.mem_cons_of_mem _ hq)
      have hr := hf r (List.mem_cons_self ..)
      rw [List.flatMap_cons, List.filterMap_append, ← hrest, imageRows, List.filterMap_cons, hr]
      cases hi : image? r.handle with
      | none => simp [Row.entries, hi, imageRows]
      | some h => simp [Row.entries, hi, imageRows]

/-- Every row with every binding set that the second table has for its node. -/
theorem entries_join :
    (join [T, U] 0).entries =
      T.entries.flatMap fun r => (U.sets r.id).map fun u => ⟨r.id, r.tags.override u⟩ := by
  rw [entries, join]
  simp only [List.getElem?_cons_zero, entries_boundRows, List.flatMap_map, entries,
    List.flatMap_assoc]
  refine List.flatMap_congr fun r _ => ?_
  simp [joinRow, Row.entries, Tags.product_cons, List.flatMap_map, List.map_flatMap,
    Function.comp_def]

theorem tags_entries (rows : List Row) (h : Handle) :
    ((rows.flatMap Row.entries).filter (·.id = h)).map ResultRow.tags = bindingsOf h rows := by
  rw [bindingsOf_eq, List.filter_flatMap, List.map_flatMap]
  refine List.flatMap_congr fun r _ => ?_
  by_cases hr : r.handle = h
  · simp [Row.entries, hr, List.filter_map, Function.comp_def]
  · simp [Row.entries, hr]

/-- A probe finds what the entries at a node bind. -/
theorem Agrees.sets_perm (hT : T.Agrees) (h : Handle) :
    (T.sets h).Perm ((T.entries.filter (·.id = h)).map ResultRow.tags) := by
  rw [entries, tags_entries]
  exact hT h

/-- Every row along every quad, with what there is to bind at the quad. -/
theorem entries_step_perm (T : Table) (W : Trail) (D : QuadSets) :
    (T.step W D).entries.Perm
      (T.entries.flatMap fun r => (W.store.quadsWith W.fromEnd r.id).flatMap fun id =>
        (W.store.ending W.toEnd id).toList.flatMap fun p =>
          (Tags.product (D.choices p.1)).map fun u => ⟨p.2, r.tags.override u⟩) := by
  rw [entries, step, List.flatMap_assoc, entries, List.flatMap_assoc]
  refine List.Perm.flatMap_left _ fun r _ => ?_
  rw [entries_boundRows, List.flatMap_assoc, Row.entries, List.flatMap_map]
  refine .trans (.of_eq (List.flatMap_congr fun id _ => ?_)) (Tags.flatMap_swap _ _ _)
  -- What is left is to choose from the row's binding sets first.
  unfold walkRows
  cases W.store.ending W.toEnd id with
  | none => simp
  | some p => simp [Row.entries, Tags.product_cons, List.map_flatMap, Function.comp_def]

end Table

/-! ## Steps over a store in memory -/

theorem flatMap_getElem? {α : Type} (xs : List α) :
    ((List.range xs.length).flatMap fun i => xs[i]?.toList) = xs := by
  induction xs with
  | nil => rfl
  | cons x xs ih =>
      rw [List.length_cons, List.range_succ_eq_map, List.flatMap_cons, List.flatMap_map]
      simpa using ih

namespace MemoryStore

variable {m : MemoryStore}

theorem quadIds_flatMap {β : Type} (hm : m.Addressable) (f : Quad → List β) :
    (m.quadIds.flatMap fun id => (m.quad id).toList.flatMap f) = m.quads.toList.flatMap f := by
  have hall := flatMap_getElem? m.quads.toList
  rw [Array.length_toList] at hall
  rw [quadIds, List.flatMap_map]
  conv => rhs; rw [← hall, List.flatMap_assoc]
  refine List.flatMap_congr fun i hi => ?_
  have hi := Nat.lt_trans (List.mem_range.1 hi) hm.quads_lt
  rw [quad, QuadId.toNat_ofNat hi, Array.getElem?_toList]

theorem isOneOf_iff {values : List Value} {h : Handle} :
    m.isOneOf values h = true ↔ h ∈ values.filterMap m.intern := by
  simp [isOneOf, List.mem_filterMap]

/-- A literal set of values holds what is one of them. -/
theorem sets_ofValues (values : List Value) (h : Handle) :
    ((Plan.ofValues m.toStore values).table m.toStore).sets h =
      if m.isOneOf values h then [.empty] else [] := by
  have hmem : (HandleList.ofList (values.filterMap m.toStore.intern)).contains h =
      m.isOneOf values h := by
    rw [Bool.eq_iff_iff, isOneOf_iff, HandleList.contains, List.contains_iff_mem,
      HandleList.mem_toList_ofList]
    rfl
  rw [← hmem]
  rfl

end MemoryStore

/-- The label context that a path is compiled under. -/
def LabelScope.context (store : QuadStore) : LabelScope → LabelContext
  | none => {}
  | some (values, names) => ⟨some (.ofValues store values), names⟩

namespace Path

open MemoryStore (bindLabel)

variable {m : MemoryStore} {bindings : ClosureBindings} {scope : LabelScope}

def demands (m : MemoryStore) (bindings : ClosureBindings) (scope : LabelScope) (via : Via)
    (names : List String) : QuadSets :=
  let ctx := scope.context m.toStore
  ⟨(Plan.tableOption m.toStore (restriction ⟨m.toStore, bindings⟩ ctx via)).map Table.sets, names,
    (Plan.tableOption m.toStore ctx.demand).map Table.sets⟩

theorem product_via {via : Via} (hv : via.IsPlain) (names : List String) (h : Handle) :
    Tags.product ((demands m bindings scope via names).via.toList.map fun sets => sets h) =
      if m.admitsPredicate via h then [.empty] else [] := by
  cases via with
  | all => simp [demands, restriction, Plan.tableOption, MemoryStore.admitsPredicate]
  | values values =>
      have hvia : (demands m bindings scope (.values values) names).via =
          some ((Plan.ofValues m.toStore values).table m.toStore).sets := by
        simp only [demands, restriction]
        rfl
      rw [hvia, Option.toList_some, List.map_singleton, Tags.product_singleton,
        MemoryStore.sets_ofValues]
      rfl
  | path p => exact hv.elim

theorem product_named (via : Via) (names : List String) (h : Handle) :
    Tags.product ((demands m bindings scope via names).replies.named h) = [.ofNames names h] := by
  have hn : (demands m bindings scope via names).replies.names = names := rfl
  unfold QuadReplies.named
  rw [hn]
  cases names with
  | nil => rfl
  | cons name names => simp

theorem product_label (via : Via) (names : List String) (label : Option Handle) :
    Tags.product ((demands m bindings scope via names).labelChoices label) =
      if m.admitsLabel scope label then [bindLabel scope label .empty] else [] := by
  cases scope with
  | none => rfl
  | some context =>
      obtain ⟨values, labelNames⟩ := context
      obtain ⟨sets, hlabels, hsets⟩ : ∃ sets,
          (demands m bindings (some (values, labelNames)) via names).labels = some sets ∧
            ∀ l, sets l =
              if m.isOneOf values l then [Tags.empty.insertAll labelNames l] else [] := by
        cases labelNames with
        | nil => exact ⟨_, rfl, fun l => MemoryStore.sets_ofValues values l⟩
        | cons name labelNames =>
            refine ⟨_, rfl, fun l => ?_⟩
            show (((Plan.ofValues m.toStore values).table m.toStore).sets l).map
              (fun u => u.insertAll (name :: labelNames) l) = _
            rw [MemoryStore.sets_ofValues]
            split
            · rfl
            · rfl
      unfold QuadSets.labelChoices
      rw [hlabels]
      cases label with
      | none => rfl
      | some l =>
          show Tags.product [sets l] = _
          rw [Tags.product_singleton, hsets]
          rfl

theorem override_bindLabel : ∀ (scope : LabelScope) (label : Option Handle) (t : Tags),
    t.override (bindLabel scope label .empty) = bindLabel scope label t
  | none, _, _ | some _, none, _ => rfl
  | some (_, names), some l, t => Tags.override_ofNames t names l

theorem product_choices {via : Via} (hv : via.IsPlain) (names : List String) (q : Quad) :
    Tags.product ((demands m bindings scope via names).choices q) =
      if m.admitsPredicate via q.predicate ∧ m.admitsLabel scope q.label then
        [bindLabel scope q.label (.ofNames names q.predicate)]
      else [] := by
  have hbind := override_bindLabel scope q.label (.ofNames names q.predicate)
  rw [QuadSets.choices, Tags.product_append, Tags.product_append, product_via hv, product_named,
    product_label]
  by_cases hp : m.admitsPredicate via q.predicate = true
  · by_cases hl : m.admitsLabel scope q.label = true
    · simp [hp, hl, hbind]
    · simp [hp, hl]
  · simp [hp]

/-- The steps of plans go where the steps of paths go. -/
theorem entries_step_walk (hm : m.Addressable) {T : Table} (fromEnd toEnd : Direction) {via : Via}
    (hv : via.IsPlain) (names : List String) :
    (T.step ⟨m.toStore, fromEnd, toEnd⟩ (demands m bindings scope via names)).entries.Perm
      (m.walk fromEnd toEnd via names scope T.entries) := by
  refine (Table.entries_step_perm T _ _).trans (.of_eq (List.flatMap_congr fun r _ => ?_))
  have hlisted : ∀ d h, m.toStore.quadsWith d h =
      m.quadIds.filter fun id => (m.toStore.quad id).bind (·.at d) = some h :=
    MemoryStore.quadsWith_eq hm
  rw [Table.flatMap_listed hlisted, ← MemoryStore.quadIds_flatMap hm]
  refine List.flatMap_congr fun id _ => ?_
  show (if (m.quad id).bind (·.at fromEnd) = some r.id then
    ((m.quad id).bind fun q => (q.at toEnd).map (q, ·)).toList.flatMap _ else []) = _
  cases m.quad id with
  | none => simp
  | some q =>
      simp only [Option.bind_some, Option.toList_some, List.flatMap_singleton, MemoryStore.along]
      by_cases hfrom : q.at fromEnd = some r.id
      · rw [if_pos hfrom]
        cases hto : q.at toEnd with
        | none => simp
        | some h =>
            simp only [Option.map_some, Option.toList_some, List.flatMap_singleton,
              product_choices hv]
            by_cases hadmits : m.admitsPredicate via q.predicate = true ∧
                m.admitsLabel scope q.label = true
            · have hbind := override_bindLabel scope q.label (r.tags.insertAll names q.predicate)
              have hbind' := override_bindLabel scope q.label (.ofNames names q.predicate)
              rw [if_pos hadmits, if_pos ⟨hfrom, hadmits⟩, List.map_singleton, List.map_singleton,
                ← hbind', ← Tags.override_assoc, Tags.override_ofNames, hbind]
            · rw [if_neg hadmits, if_neg fun h => hadmits h.2]
              rfl
      · rw [if_neg hfrom, if_neg fun h => hfrom h.1]

end Path

/-! ## Plans that read as rows -/

/-- The plan cannot fail, and its entries are the rows, up to their order. -/
structure Plan.Reads (m : MemoryStore) (p : Plan) (rows : List ResultRow) : Prop where
  within : p.Within m.toStore.unlimited
  perm : (p.table m.toStore).entries.Perm rows

namespace Plan

variable {m : MemoryStore} {p q : Plan} {rows others : List ResultRow}

theorem within_values (hm : m.Addressable) (values : List Value) :
    (Plan.ofValues m.toStore values).Within m.toStore.unlimited := by
  intro h hh
  obtain ⟨v, -, hv⟩ := List.mem_filterMap.1 (HandleList.mem_toList_ofList.1 hh)
  exact (MemoryStore.coherent hm).mem_of_intern hv

theorem reads_values (hm : m.Addressable) (values : List Value) :
    (Plan.ofValues m.toStore values).Reads m (m.seeds (.values values)) := by
  have hseeds : (HandleList.ofList (values.filterMap m.toStore.intern)).toList.Perm
      (values.filterMap m.intern).dedup := by
    refine (List.perm_ext_iff_of_nodup (HandleList.ofList _).nodup (List.nodup_dedup _)).2 ?_
    intro h
    rw [HandleList.mem_toList_ofList, List.mem_dedup]
    rfl
  have hentries : ((Plan.ofValues m.toStore values).table m.toStore).entries =
      (HandleList.ofList (values.filterMap m.toStore.intern)).toList.map (⟨·, .empty⟩) :=
    Table.entries_leaf _ _
  have hperm : ((Plan.ofValues m.toStore values).table m.toStore).entries.Perm
      (m.seeds (.values values)) := by
    rw [hentries]
    exact hseeds.map _
  exact ⟨within_values hm values, hperm⟩

theorem reads_all (m : MemoryStore) : (Plan.all).Reads m (m.seeds .all) := by
  have hentries : (Plan.all.table m.toStore).entries = m.seeds .all := Table.entries_leaf _ _
  exact ⟨trivial, .of_eq hentries⟩

theorem Reads.mem_nodes (hm : m.Addressable) (hp : p.Reads m rows) :
    ∀ r ∈ (p.table m.toStore).entries, r.id ∈ m.toStore.nodes := by
  intro r hr
  obtain ⟨row, hrow, hr⟩ := List.mem_flatMap.1 hr
  obtain ⟨t, -, rfl⟩ := List.mem_map.1 hr
  exact ((tabular_of_unlimited hp.within).safeRows (MemoryStore.coherent hm) row hrow).1

theorem Reads.sets_perm (hm : m.Addressable) (hq : q.Reads m others) (h : Handle) :
    ((q.table m.toStore).sets h).Perm ((others.filter (·.id = h)).map ResultRow.tags) :=
  ((agrees_table (MemoryStore.coherent hm) q).sets_perm h).trans ((hq.perm.filter _).map _)

theorem Reads.meet (hm : m.Addressable) (hp : p.Reads m rows) (hq : q.Reads m others) :
    (Plan.and [p, q] 0).Reads m (ResultRow.pairs rows others) := by
  have hpairs : ∀ r : ResultRow,
      (((q.table m.toStore).sets r.id).map fun u => (⟨r.id, r.tags.override u⟩ : ResultRow)).Perm
        ((others.filter (·.id = r.id)).map fun u => ⟨r.id, r.tags.override u.tags⟩) := by
    intro r
    have h := (hq.sets_perm hm r.id).map fun u => (⟨r.id, r.tags.override u⟩ : ResultRow)
    rwa [List.map_map] at h
  have hperm : (Table.join [p.table m.toStore, q.table m.toStore] 0).entries.Perm
      (ResultRow.pairs rows others) := by
    rw [Table.entries_join]
    exact List.Perm.flatMap hp.perm fun r _ => hpairs r
  exact ⟨⟨hp.within, hq.within, trivial⟩, hperm⟩

theorem Reads.restrict (hp : p.Reads m rows) (hq : q.Within m.toStore.unlimited)
    (keep : Handle → Bool)
    (hk : ∀ r ∈ (p.table m.toStore).entries,
      (q.table m.toStore).sets r.id = if keep r.id then [.empty] else []) :
    (Plan.and [p, q] 0).Reads m (rows.filter fun r => keep r.id) := by
  have hkept : (Table.join [p.table m.toStore, q.table m.toStore] 0).entries =
      (p.table m.toStore).entries.filter fun r => keep r.id := by
    rw [Table.entries_join]
    generalize (p.table m.toStore).entries = entries at hk
    induction entries with
    | nil => rfl
    | cons r entries ih =>
        have hrest := ih fun q hq => hk q (List.mem_cons_of_mem _ hq)
        rw [List.flatMap_cons, hrest, hk r (List.mem_cons_self ..), List.filter_cons]
        by_cases hr : keep r.id = true
        · simp [hr]
        · simp [hr]
  have hperm : (Table.join [p.table m.toStore, q.table m.toStore] 0).entries.Perm
      (rows.filter fun r => keep r.id) := by
    rw [hkept]
    exact hp.perm.filter _
  exact ⟨⟨hp.within, hq, trivial⟩, hperm⟩

theorem Reads.isOneOf (hm : m.Addressable) (hp : p.Reads m rows) (values : List Value) :
    (Plan.and [p, .ofValues m.toStore values] 0).Reads m
      (rows.filter fun r => m.isOneOf values r.id) :=
  hp.restrict (within_values hm values) (m.isOneOf values) fun _ _ =>
    MemoryStore.sets_ofValues values _

theorem Reads.except (hm : m.Addressable) (hp : p.Reads m rows) (hq : q.Reads m others) :
    (Plan.and [p, .not q .all] 0).Reads m
      (rows.filter fun r => !others.any (·.id = r.id)) := by
  have hs := MemoryStore.coherent hm
  have hnot : (Plan.not q .all).Within m.toStore.unlimited := ⟨hq.within, trivial⟩
  refine hp.restrict hnot (fun h => !others.any (·.id = h)) fun r hr => ?_
  have hall : (table m.toStore .all).sets r.id = [.empty] :=
    if_pos ((hs.containsNode_iff r.id).2 (hp.mem_nodes hm r hr))
  have hlacks : (q.table m.toStore).lacks r.id = !others.any (·.id = r.id) := by
    have hlen := (hq.sets_perm hm r.id).length_eq
    rw [List.length_map] at hlen
    rw [Table.lacks, Bool.eq_iff_iff, List.isEmpty_iff, ← List.length_eq_zero_iff, hlen]
    simp [List.filter_eq_nil_iff]
  show (if (q.table m.toStore).lacks r.id then (table m.toStore .all).sets r.id else []) = _
  rw [hall, hlacks]

theorem Reads.union (hp : p.Reads m rows) (hq : q.Reads m others) :
    (Plan.or [p, q]).Reads m (rows ++ others) := by
  have hperm : (Table.concat [p.table m.toStore, q.table m.toStore]).entries.Perm
      (rows ++ others) := by
    rw [Table.entries_concat]
    simpa using hp.perm.append hq.perm
  exact ⟨⟨hp.within, hq.within, trivial⟩, hperm⟩

theorem Reads.save (hp : p.Reads m rows) (names : List String) :
    (Plan.save p names).Reads m (rows.map fun r => ⟨r.id, r.tags.insertAll names r.id⟩) := by
  have hperm : ((p.table m.toStore).naming names).entries.Perm
      (rows.map fun r => ⟨r.id, r.tags.insertAll names r.id⟩) := by
    rw [Table.entries_naming]
    exact hp.perm.map _
  exact ⟨hp.within, hperm⟩

theorem Reads.filter (hp : p.Reads m rows) {test : ValueTest} (ht : m.toStore.Total test) :
    (Plan.filter p test).Reads m (rows.filter fun r => m.accepts test r.id) := by
  have haccepts : Table.accepts m.toStore test = m.accepts test := by
    funext h
    refine congrArg (Option.any · (m.resolve h)) (funext fun v => ?_)
    cases test v <;> rfl
  have hperm : ((p.table m.toStore).filter (Table.accepts m.toStore test)).entries.Perm
      (rows.filter fun r => m.accepts test r.id) := by
    rw [Table.entries_filter, haccepts]
    exact hp.perm.filter _
  exact ⟨⟨ht, hp.within⟩, hperm⟩

theorem Reads.constrain (hp : p.Reads m rows) (c : Constraint) :
    (Plan.constraint p [c]).Reads m (rows.filter fun r => (m.resolve r.id).any c.holds) := by
  have haccepts : (Table.accepts m.toStore fun v => .ok ([c].all (·.holds v))) =
      fun h => (m.resolve h).any c.holds := by
    funext h
    exact congrArg (Option.any · (m.resolve h)) (funext fun v => Bool.and_true _)
  have hperm : ((p.table m.toStore).filter
      (Table.accepts m.toStore fun v => .ok ([c].all (·.holds v)))).entries.Perm
        (rows.filter fun r => (m.resolve r.id).any c.holds) := by
    rw [Table.entries_filter, haccepts]
    exact hp.perm.filter _
  exact ⟨hp.within, hperm⟩

theorem Reads.map (hm : m.Addressable) (hp : p.Reads m rows) {f : ValueMap}
    (hf : m.toStore.Total f) :
    (Plan.map p f).Reads m (rows.filterMap fun r => (m.image? f r.id).map (⟨·, r.tags⟩)) := by
  have hs := MemoryStore.coherent hm
  have himage : ∀ r ∈ (p.table m.toStore).rows, imageOf m.toStore f r.handle =
      match m.image? f r.handle with
      | none => .nothing
      | some h => .found h := by
    intro r hr
    obtain ⟨v, hv⟩ := hs.exists_value ((tabular_of_unlimited hp.within).safeRows hs r hr).1
    obtain ⟨w, hw⟩ := hf r.handle v hv
    have hv' : m.resolve r.handle = some v := hv
    simp only [imageOf, hv, hw, MemoryStore.image?, hv', Option.bind_some, Except.toOption]
    rfl
  have hperm : (Table.recorded
      (Table.imageRows m.toStore f (p.table m.toStore).rows)).entries.Perm
        (rows.filterMap fun r => (m.image? f r.id).map (⟨·, r.tags⟩)) := by
    rw [Table.entries_images himage]
    exact hp.perm.filterMap _
  exact ⟨⟨hf, hp.within⟩, hperm⟩

end Plan

/-! ## Operations and paths -/

namespace Path

variable {m : MemoryStore} {bindings : ClosureBindings} {scope : LabelScope}
variable {p : Plan} {rows : List ResultRow}

theorem within_plain (hm : m.Addressable) {ctx : LabelContext} {via : Via} (hv : via.IsPlain) :
    Plan.WithinOption m.toStore.unlimited (restriction ⟨m.toStore, bindings⟩ ctx via) := by
  cases via with
  | all =>
      rw [restriction]
      trivial
  | values values =>
      rw [restriction]
      exact Plan.within_values hm values
  | path p => exact hv.elim

theorem within_context (hm : m.Addressable) (scope : LabelScope) :
    Plan.WithinOption m.toStore.unlimited (scope.context m.toStore).demand := by
  refine within_demand ?_
  cases scope with
  | none => trivial
  | some context => exact Plan.within_values hm context.1

theorem reads_walk (hm : m.Addressable) (hp : p.Reads m rows) (fromEnd toEnd : Direction)
    {via : Via} (hv : via.IsPlain) (names : List String) :
    (Plan.step p fromEnd toEnd (restriction ⟨m.toStore, bindings⟩ (scope.context m.toStore) via)
      names (scope.context m.toStore).demand).Reads m
        (m.walk fromEnd toEnd via names scope rows) := by
  have hrows := hp.perm.flatMap_right fun r =>
    m.quads.toList.flatMap (m.along fromEnd toEnd via names scope r)
  exact ⟨⟨hp.within, within_plain hm hv, within_context hm scope⟩,
    (entries_step_walk hm fromEnd toEnd hv names).trans hrows⟩

theorem context_lower {op : Op} (ho : op.IsRelational m.toStore) :
    (lower ⟨m.toStore, bindings⟩ (scope.context m.toStore) p op).2 =
      (scope.after op).context m.toStore := by
  rw [lower.eq_def]
  cases op with
  | labelContext via names =>
      cases via with
      | all => simp [restriction, LabelScope.after, LabelScope.context]
      | values values => simp [restriction, LabelScope.after, LabelScope.context]
      | path q => exact ho.elim
  | follow morphism reverse => cases reverse <;> rfl
  | _ => rfl

/-- On its own or applied to a plan, and under whatever label context, the plan of the path has the
rows that the path relates. -/
def Implements (m : MemoryStore) (bindings : ClosureBindings) (q : Path) : Prop :=
  q.IsRelational m.toStore → ∀ scope : LabelScope,
    (build ⟨m.toStore, bindings⟩ (scope.context m.toStore) none q).Reads m (q.reach m scope none) ∧
      ∀ p rows, p.Reads m rows →
        (build ⟨m.toStore, bindings⟩ (scope.context m.toStore) (some p) q).Reads m
          (q.reach m scope (some rows))

theorem reads_lower (hm : m.Addressable) {op : Op}
    (hb : ∀ q : Path, q.depth ≤ op.depth → Implements m bindings q)
    (hp : p.Reads m rows) (ho : op.IsRelational m.toStore) :
    (lower ⟨m.toStore, bindings⟩ (scope.context m.toStore) p op).1.Reads m
      (op.reach m scope rows) := by
  rw [lower.eq_def]
  cases op with
  | is values => exact hp.isOneOf hm values
  | outgoing via names => exact reads_walk hm hp .subject .object ho names
  | incoming via names => exact reads_walk hm hp .object .subject ho names
  | both via names =>
      exact (reads_walk hm hp .subject .object ho names).union
        (reads_walk hm hp .object .subject ho names)
  | and other => exact hp.meet hm (hb other (Nat.le_refl _) ho scope).1
  | or other => exact hp.union (hb other (Nat.le_refl _) ho scope).1
  | except other => exact hp.except hm (hb other (Nat.le_refl _) ho scope).1
  | follow morphism reverse =>
      cases reverse with
      | true => exact ho.elim
      | false => exact (hb morphism (Nat.le_refl _) ho scope).2 p rows hp
  | tag names => exact hp.save names
  | labelContext via names => exact hp
  | constrain c => exact hp.constrain c
  | filter test => exact hp.filter ho
  | map f => exact hp.map hm ho
  | _ => exact ho.elim

theorem reads_buildOps (hm : m.Addressable) {ops : List Op}
    (hb : ∀ q : Path, q.depth ≤ depthOfOps ops → Implements m bindings q) (hp : p.Reads m rows)
    (ho : AreRelational m.toStore ops) :
    (buildOps ⟨m.toStore, bindings⟩ (scope.context m.toStore) p ops).Reads m
      (reachOps m scope rows ops) := by
  induction ops generalizing scope p rows with
  | nil =>
      rw [buildOps]
      exact hp
  | cons op ops ih =>
      have hop : ∀ q : Path, q.depth ≤ op.depth → Implements m bindings q := fun q hq =>
        hb q (Nat.le_trans hq (Nat.le_max_left ..))
      have hops : ∀ q : Path, q.depth ≤ depthOfOps ops → Implements m bindings q := fun q hq =>
        hb q (Nat.le_trans hq (Nat.le_max_right ..))
      rw [buildOps]
      dsimp only
      rw [context_lower ho.1]
      exact ih hops (reads_lower hm hop hp ho.1) ho.2

theorem implements (hm : m.Addressable) (q : Path) : Implements m bindings q := by
  induction q using depth_induction with
  | step root ops ih =>
      intro hq scope
      constructor
      · rw [build.eq_def]
        refine reads_buildOps hm ih ?_ hq
        cases root with
        | values seeds => exact Plan.reads_values hm seeds
        | all | morphism => exact Plan.reads_all m
      · intro p rows hp
        rw [build.eq_def]
        refine reads_buildOps hm ih ?_ hq
        cases root with
        | values seeds => exact hp.isOneOf hm seeds
        | all | morphism => exact hp

/-- The plan of a path has the rows that the path relates. -/
theorem reads_compile (hm : m.Addressable) {path : Path} (hpath : path.IsRelational m.toStore)
    (bindings : ClosureBindings) :
    (path.compile m.toStore bindings).Reads m (path.reach m none none) :=
  (implements hm path hpath none).1

end Path

/-! ## Queries -/

namespace Session

/-- A query whose operations relate rows collects the rows that its path relates, each with its own
node bound to the result's name. -/
theorem collect_perm_reach (m : MemoryStore) (hm : m.Addressable) (config : Config)
    (hpaths : config.includePaths = true) (hlimit : config.defaultLimit = none) (path : Path)
    (hpath : path.IsRelational m.toStore) :
    ∃ rows,
      collect ⟨m.toStore, { config with optimize := false }⟩ path none .never =
        (.ok rows, .never) ∧
      rows.Perm ((path.reach m none none).map fun r => ⟨r.id, r.tags.insert resultName r.id⟩) := by
  have hreads := Path.reads_compile hm hpath config.bindings
  have hplain := collect_eq (s := ⟨m.toStore, { config with optimize := false }⟩) hpaths hlimit
    (show (prepare _ path .never).1 = .ok _ from rfl)
  rw [collected_table (MemoryStore.coherent hm) hreads.within] at hplain
  refine ⟨_, hplain, ?_⟩
  have hresults : ∀ T : Table, T.rows.flatMap Row.results =
      T.entries.map fun r => ⟨r.id, r.tags.insert resultName r.id⟩ := by
    intro T
    rw [Table.entries, List.map_flatMap]
    refine List.flatMap_congr fun r _ => ?_
    simp [Row.results, Row.entries]
  rw [hresults]
  exact hreads.perm.map _

/-- Those whom Charlie and Dani follow, except Greg, and the holders of a status in the smart
graph. -/
theorem followed_or_smart :
    let path : Path := .mk (.values [.iri "charlie", .iri "dani", .iri "nobody"])
      [.tag ["start"], .outgoing (.values [.iri "follows"]) ["how"],
        .except (.mk (.values [.iri "greg"]) []),
        .or (.mk .morphism [.labelContext (.values [.iri "smart_graph"]) ["graph"],
          .incoming .all []])]
    ∃ rows,
      collect ⟨MemoryStore.social.toStore, { optimize := false }⟩ path none .never =
        (.ok rows, .never) ∧
      (rows.map fun r => (r.id.toNat, r.tags.entries.map fun e => (e.1, e.2.toNat))).Perm
        [(2, [("how", 1), ("id", 2), ("start", 4)]), (5, [("how", 1), ("id", 5), ("start", 4)]),
          (2, [("how", 1), ("id", 2), ("start", 5)]), (7, [("graph", 13), ("id", 7)]),
          (6, [("graph", 13), ("id", 6)])] := by
  intro path
  obtain ⟨rows, hrows, hperm⟩ := collect_perm_reach .social ⟨by decide +kernel, by decide +kernel⟩
    {} rfl rfl path ⟨trivial, trivial, trivial, ⟨trivial, trivial, trivial⟩, trivial⟩
  refine ⟨rows, hrows, (hperm.map _).trans (.of_eq ?_)⟩
  decide +kernel

end Session

end GraphQuery
