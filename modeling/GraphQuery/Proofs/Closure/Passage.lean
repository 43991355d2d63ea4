import GraphQuery.Cursor.Closure
import GraphQuery.Proofs.Path.Compiled

/-!
# Passages

Paths that walk and restrict treat every row on its own: where it leads, and what is bound on the
way, depends on its node alone. So what was bound at the start is still bound at the end, unless it
is bound anew, and tells where the row has come from.
-/

namespace GraphQuery

/-- The ways from one node to another, each with what is bound on it. -/
abbrev Passage : Type :=
  Handle → Handle → Tags → Prop

namespace Passage

def stay : Passage :=
  fun x y u => x = y ∧ u = .empty

def andThen (G G' : Passage) : Passage :=
  fun x z w => ∃ y u v, G x y u ∧ G' y z v ∧ w = u.override v

def either (G G' : Passage) : Passage :=
  fun x y u => G x y u ∨ G' x y u

/-- The name of a base is bound nowhere on the way. -/
def Unmarked (G : Passage) : Prop :=
  ∀ x y u, G x y u → u.get? baseName = none

variable {G G' : Passage}

theorem unmarked_stay : stay.Unmarked := by
  rintro x y u ⟨-, rfl⟩
  rfl

theorem Unmarked.andThen (hG : G.Unmarked) (hG' : G'.Unmarked) : (G.andThen G').Unmarked := by
  rintro x z w ⟨y, u, v, hu, hv, rfl⟩
  rw [Tags.get?_override, hG x y u hu, hG' y z v hv]
  rfl

theorem Unmarked.either (hG : G.Unmarked) (hG' : G'.Unmarked) : (G.either G').Unmarked :=
  fun x y u hu => hu.elim (hG x y u) (hG' x y u)

end Passage

namespace Table

/-- The rows of the second table are those of the first one, led on by the passage. -/
def Leads (G : Passage) (T T' : Table) : Prop :=
  ∀ y s, ⟨y, s⟩ ∈ T'.entries ↔ ∃ r ∈ T.entries, ∃ u, G r.id y u ∧ s = r.tags.override u

def Unmarked (T : Table) : Prop :=
  ∀ h, ∀ u ∈ T.sets h, u.get? baseName = none

variable {T U V : Table} {G G' : Passage}

theorem Leads.refl (T : Table) : Leads .stay T T := by
  intro y s
  constructor
  · intro hy
    exact ⟨⟨y, s⟩, hy, .empty, ⟨rfl, rfl⟩, rfl⟩
  · rintro ⟨r, hr, u, ⟨rfl, rfl⟩, rfl⟩
    exact hr

theorem Leads.trans (hU : Leads G T U) (hV : Leads G' U V) : Leads (G.andThen G') T V := by
  intro z s
  rw [hV z s]
  constructor
  · rintro ⟨⟨y, t⟩, hr, v, hv, rfl⟩
    obtain ⟨q, hq, u, hu, rfl⟩ := (hU y t).1 hr
    exact ⟨q, hq, u.override v, ⟨y, u, v, hu, hv, rfl⟩, Tags.override_assoc ..⟩
  · rintro ⟨q, hq, w, ⟨y, u, v, hu, hv, rfl⟩, rfl⟩
    exact ⟨⟨y, q.tags.override u⟩, (hU y _).2 ⟨q, hq, u, hu, rfl⟩, v, hv,
      (Tags.override_assoc ..).symm⟩

theorem leads_join (T U : Table) :
    Leads (fun x y u => x = y ∧ u ∈ U.sets x) T (join [T, U] 0) := by
  intro y s
  rw [entries_join]
  simp only [List.mem_flatMap, List.mem_map, ResultRow.mk.injEq]
  constructor
  · rintro ⟨r, hr, u, hu, rfl, rfl⟩
    exact ⟨r, hr, u, ⟨rfl, hu⟩, rfl⟩
  · rintro ⟨r, hr, u, ⟨rfl, hu⟩, rfl⟩
    exact ⟨r, hr, u, hu, rfl, rfl⟩

theorem leads_filter (T : Table) (keep : Handle → Bool) :
    Leads (fun x y u => x = y ∧ keep x = true ∧ u = .empty) T (T.filter keep) := by
  intro y s
  rw [entries_filter, List.mem_filter]
  constructor
  · rintro ⟨hy, hk⟩
    exact ⟨⟨y, s⟩, hy, .empty, ⟨rfl, hk, rfl⟩, rfl⟩
  · rintro ⟨r, hr, u, ⟨rfl, hk, rfl⟩, rfl⟩
    exact ⟨hr, hk⟩

theorem leads_step (T : Table) (W : Trail) (D : QuadSets) :
    Leads (fun x y u => ∃ id ∈ W.store.quadsWith W.fromEnd x, ∃ quad,
      W.store.ending W.toEnd id = some (quad, y) ∧ u ∈ Tags.product (D.choices quad))
      T (T.step W D) := by
  intro y s
  rw [(entries_step_perm T W D).mem_iff]
  simp only [List.mem_flatMap, Option.mem_toList, List.mem_map, ResultRow.mk.injEq]
  constructor
  · rintro ⟨r, hr, id, hid, ⟨quad, h⟩, hend, u, hu, rfl, rfl⟩
    exact ⟨r, hr, u, ⟨id, hid, quad, hend, hu⟩, rfl⟩
  · rintro ⟨r, hr, u, ⟨id, hid, quad, hend, hu⟩, rfl⟩
    exact ⟨r, hr, id, hid, (quad, y), hend, u, hu, rfl, rfl⟩

theorem Leads.either (hU : Leads G T U) (hV : Leads G' T V) :
    Leads (G.either G') T (concat [U, V]) := by
  intro y s
  rw [entries_concat]
  simp only [List.flatMap_cons, List.flatMap_nil, List.append_nil, List.mem_append, hU y s, hV y s]
  constructor
  · rintro (⟨r, hr, u, hu, rfl⟩ | ⟨r, hr, u, hu, rfl⟩)
    · exact ⟨r, hr, u, .inl hu, rfl⟩
    · exact ⟨r, hr, u, .inr hu, rfl⟩
  · rintro ⟨r, hr, u, hu | hu, rfl⟩
    · exact .inl ⟨r, hr, u, hu, rfl⟩
    · exact .inr ⟨r, hr, u, hu, rfl⟩

/-! ## Where the name of a base is bound -/

theorem unmarked_product {name : String} {sets : List (List Tags)}
    (hs : ∀ xs ∈ sets, ∀ u ∈ xs, u.get? name = none) :
    ∀ u ∈ Tags.product sets, u.get? name = none := by
  induction sets with
  | nil => simp
  | cons xs sets ih =>
      intro u hu
      rw [Tags.product_cons] at hu
      obtain ⟨t, ht, hu⟩ := List.mem_flatMap.1 hu
      obtain ⟨v, hv, rfl⟩ := List.mem_map.1 hu
      rw [Tags.get?_override, hs xs (List.mem_cons_self ..) t ht,
        ih (fun ys hys => hs ys (List.mem_cons_of_mem _ hys)) v hv]
      rfl

/-- A step binds what its restrictions and its names bind. -/
theorem unmarked_choices {D : QuadSets} (hvia : ∀ sets ∈ D.via, ∀ h, ∀ u ∈ sets h,
    u.get? baseName = none) (hnames : baseName ∉ D.names)
    (hlabels : ∀ sets ∈ D.labels, ∀ h, ∀ u ∈ sets h, u.get? baseName = none) (quad : Quad) :
    ∀ xs ∈ D.choices quad, ∀ u ∈ xs, u.get? baseName = none := by
  intro xs hxs u hu
  rw [QuadSets.choices, List.mem_append, List.mem_append] at hxs
  rcases hxs with (hxs | hxs) | hxs
  · obtain ⟨sets, hsets, rfl⟩ := List.mem_map.1 hxs
    exact hvia sets (Option.mem_toList.1 hsets) _ u hu
  · have hn : D.replies.names = D.names := rfl
    rw [QuadReplies.named, hn] at hxs
    split at hxs
    · simp at hxs
    · obtain rfl := List.mem_singleton.1 hxs
      obtain rfl := List.mem_singleton.1 hu
      simp [Tags.ofNames, hnames]
  · unfold QuadSets.labelChoices at hxs
    cases hl : D.labels with
    | none => simp [hl] at hxs
    | some sets =>
        cases hlabel : quad.label with
        | none => simp_all
        | some l =>
            simp only [hl, hlabel, List.mem_singleton] at hxs
            exact hlabels sets (by rw [hl]; rfl) l u (hxs ▸ hu)

theorem Agrees.unmarked (hT : T.Agrees) (hr : ∀ r ∈ T.entries, r.tags.get? baseName = none) :
    T.Unmarked := by
  intro h u hu
  obtain ⟨r, hmem, rfl⟩ := List.mem_map.1 ((hT.sets_perm h).mem_iff.1 hu)
  exact hr r (List.mem_filter.1 hmem).1

theorem Leads.unmarked (hU : Leads G T U) (hG : G.Unmarked)
    (hT : ∀ r ∈ T.entries, r.tags = .empty) (hagrees : U.Agrees) : U.Unmarked := by
  refine hagrees.unmarked fun r hr => ?_
  obtain ⟨q, hq, u, hu, hs⟩ := (hU r.id r.tags).1 hr
  rw [hs, hT q hq, Tags.empty_override]
  exact hG _ _ u hu

end Table

/-! ## Paths -/

mutual

def Via.IsTraceable : Via → Prop
  | .all | .values _ => True
  | .path p => p.IsTraceable

def Op.IsTraceable : Op → Prop
  | .is _ | .except _ | .constrain _ | .filter _ => True
  | .outgoing via names | .incoming via names | .both via names =>
      via.IsTraceable ∧ baseName ∉ names
  | .has via _ _ => via.IsTraceable
  | _ => False

/-- Every operation of the path walks or restricts. -/
def Path.IsTraceable : Path → Prop
  | .mk _ ops => Path.AreTraceable ops

def Path.AreTraceable : List Op → Prop
  | [] => True
  | op :: ops => op.IsTraceable ∧ Path.AreTraceable ops

end

def LabelScope.Unmarked : LabelScope → Prop
  | none => True
  | some (_, names) => baseName ∉ names

namespace Path

variable {m : MemoryStore} {bindings : ClosureBindings} {scope : LabelScope}

/-- The path on its own binds no base, and applied to a plan it leads on its rows. -/
def Traces (m : MemoryStore) (bindings : ClosureBindings) (scope : LabelScope) (q : Path) : Prop :=
  q.IsTraceable →
    ((build ⟨m.toStore, bindings⟩ (scope.context m.toStore) none q).table m.toStore).Unmarked ∧
    ∃ G : Passage, G.Unmarked ∧ ∀ p : Plan, Table.Leads G (p.table m.toStore)
      ((build ⟨m.toStore, bindings⟩ (scope.context m.toStore) (some p) q).table m.toStore)

theorem unmarked_values (values : List Value) :
    ((Plan.ofValues m.toStore values).table m.toStore).Unmarked := by
  intro h u hu
  rw [MemoryStore.sets_ofValues] at hu
  split at hu
  · obtain rfl := List.mem_singleton.1 hu
    rfl
  · simp at hu

theorem unmarked_demand (hscope : scope.Unmarked) :
    ∀ p ∈ (scope.context m.toStore).demand, (p.table m.toStore).Unmarked := by
  cases scope with
  | none => simp [LabelScope.context, LabelContext.demand]
  | some context =>
      obtain ⟨values, names⟩ := context
      intro p hp
      have hp : (if names.isEmpty then Plan.ofValues m.toStore values
          else .save (.ofValues m.toStore values) names) = p := Option.some.inj hp
      subst hp
      split
      · exact unmarked_values values
      · intro h u hu
        obtain ⟨t, ht, rfl⟩ := List.mem_map.1 hu
        have hnames : baseName ∉ names := hscope
        simp [hnames, unmarked_values values h t ht]

theorem unmarked_restriction {via : Via}
    (hb : ∀ q : Path, q.depth ≤ via.depth → Traces m bindings scope q) (hv : via.IsTraceable) :
    ∀ p ∈ restriction ⟨m.toStore, bindings⟩ (scope.context m.toStore) via,
      (p.table m.toStore).Unmarked := by
  cases via with
  | all => simp [restriction]
  | values values =>
      rw [restriction]
      rintro p ⟨⟩
      exact unmarked_values values
  | path q =>
      rw [restriction]
      rintro p ⟨⟩
      exact (hb q (Nat.le_refl _) hv).1

/-- A step leads on the rows of whatever plan it is applied to. -/
theorem exists_passage_step (fromEnd toEnd : Direction) {via : Option Plan} {names : List String}
    {labels : Option Plan} (hvia : ∀ p ∈ via, (p.table m.toStore).Unmarked)
    (hnames : baseName ∉ names) (hlabels : ∀ p ∈ labels, (p.table m.toStore).Unmarked) :
    ∃ G : Passage, G.Unmarked ∧ ∀ p : Plan, Table.Leads G (p.table m.toStore)
      ((Plan.step p fromEnd toEnd via names labels).table m.toStore) := by
  refine ⟨_, ?_, fun p => Table.leads_step (p.table m.toStore) ⟨m.toStore, fromEnd, toEnd⟩
    ⟨(Plan.tableOption m.toStore via).map Table.sets, names,
      (Plan.tableOption m.toStore labels).map Table.sets⟩⟩
  rintro x y u ⟨id, -, quad, -, hu⟩
  refine Table.unmarked_product (Table.unmarked_choices ?_ hnames ?_ quad) u hu
  · cases via with
    | none => simp [Plan.tableOption]
    | some p =>
        rintro sets ⟨⟩
        exact hvia p rfl
  · cases labels with
    | none => simp [Plan.tableOption]
    | some p =>
        rintro sets ⟨⟩
        exact hlabels p rfl

theorem exists_passage_meet {q : Plan} (hq : (q.table m.toStore).Unmarked) :
    ∃ G : Passage, G.Unmarked ∧ ∀ p : Plan, Table.Leads G (p.table m.toStore)
      ((Plan.and [p, q] 0).table m.toStore) :=
  ⟨_, fun x _ u hu => hq x u hu.2,
    fun p => Table.leads_join (p.table m.toStore) (q.table m.toStore)⟩

theorem exists_passage_filter (keep : Handle → Bool) :
    ∃ G : Passage, G.Unmarked ∧ ∀ T : Table, Table.Leads G T (T.filter keep) := by
  refine ⟨_, ?_, fun T => Table.leads_filter T keep⟩
  rintro x y u ⟨-, -, rfl⟩
  rfl

/-- What leads a plan without bindings on unmarked makes a plan that is unmarked. -/
theorem unmarked_of_leads (hm : m.Addressable) {G : Passage} (hG : G.Unmarked) {p q : Plan}
    (hp : ∀ r ∈ (p.table m.toStore).entries, r.tags = .empty)
    (hq : Table.Leads G (p.table m.toStore) (q.table m.toStore)) : (q.table m.toStore).Unmarked :=
  hq.unmarked hG hp (Plan.agrees_table (MemoryStore.coherent hm) q)

theorem bare_leaf (handles : List Handle) (mem : Handle → Bool) :
    ∀ r ∈ (Table.leaf handles mem).entries, r.tags = .empty := by
  intro r hr
  rw [Table.entries_leaf] at hr
  obtain ⟨h, -, rfl⟩ := List.mem_map.1 hr
  rfl

theorem bare_all : ∀ r ∈ ((Plan.all).table m.toStore).entries, r.tags = .empty :=
  bare_leaf _ _

theorem bare_values (values : List Value) :
    ∀ r ∈ ((Plan.ofValues m.toStore values).table m.toStore).entries, r.tags = .empty :=
  bare_leaf _ _

theorem unmarked_not_all (forbidden : Plan) :
    ((Plan.not forbidden .all).table m.toStore).Unmarked := by
  intro h u hu
  have hu : u ∈ if Table.lacks _ h then
    (if m.toStore.containsNode h then [Tags.empty] else []) else [] := hu
  split at hu
  · split at hu
    · obtain rfl := List.mem_singleton.1 hu
      rfl
    · simp at hu
  · simp at hu

theorem unmarked_linked (hm : m.Addressable) (values : List Value) {via labels : Option Plan}
    (hvia : ∀ p ∈ via, (p.table m.toStore).Unmarked)
    (hlabels : ∀ p ∈ labels, (p.table m.toStore).Unmarked) (fromEnd toEnd : Direction) :
    ((Plan.step (if values.isEmpty then Plan.all else .ofValues m.toStore values) fromEnd toEnd via
      [] labels).table m.toStore).Unmarked := by
  obtain ⟨G, hG, hlead⟩ := exists_passage_step fromEnd toEnd hvia List.not_mem_nil hlabels
  refine unmarked_of_leads hm hG ?_ (hlead _)
  split
  · exact bare_all
  · exact bare_values values

/-- Each operation that walks or restricts leads on the rows of whatever plan it is applied to. -/
theorem exists_passage_lower (hm : m.Addressable) (hscope : scope.Unmarked) {op : Op}
    (hb : ∀ q : Path, q.depth ≤ op.depth → Traces m bindings scope q) (ho : op.IsTraceable) :
    ∃ G : Passage, G.Unmarked ∧ ∀ p : Plan,
      Table.Leads G (p.table m.toStore)
        ((lower ⟨m.toStore, bindings⟩ (scope.context m.toStore) p op).1.table m.toStore) ∧
      (lower ⟨m.toStore, bindings⟩ (scope.context m.toStore) p op).2 =
        scope.context m.toStore := by
  have hlabels := unmarked_demand (m := m) hscope
  have hvia : ∀ via : Via, via.depth = op.depth → via.IsTraceable →
      ∀ p ∈ restriction ⟨m.toStore, bindings⟩ (scope.context m.toStore) via,
        (p.table m.toStore).Unmarked :=
    fun via hd hv => unmarked_restriction (hd ▸ hb) hv
  cases op with
  | is values =>
      obtain ⟨G, hG, hlead⟩ := exists_passage_meet (m := m) (unmarked_values values)
      exact ⟨G, hG, fun p => by rw [lower.eq_def]; exact ⟨hlead p, rfl⟩⟩
  | outgoing via names =>
      obtain ⟨G, hG, hlead⟩ := exists_passage_step .subject .object (hvia via rfl ho.1) ho.2 hlabels
      exact ⟨G, hG, fun p => by rw [lower.eq_def]; exact ⟨hlead p, rfl⟩⟩
  | incoming via names =>
      obtain ⟨G, hG, hlead⟩ := exists_passage_step .object .subject (hvia via rfl ho.1) ho.2 hlabels
      exact ⟨G, hG, fun p => by rw [lower.eq_def]; exact ⟨hlead p, rfl⟩⟩
  | both via names =>
      obtain ⟨G, hG, hout⟩ := exists_passage_step .subject .object (hvia via rfl ho.1) ho.2 hlabels
      obtain ⟨G', hG', hin⟩ := exists_passage_step .object .subject (hvia via rfl ho.1) ho.2 hlabels
      exact ⟨_, hG.either hG', fun p => by
        rw [lower.eq_def]
        exact ⟨(hout p).either (hin p), rfl⟩⟩
  | except other =>
      obtain ⟨G, hG, hlead⟩ := exists_passage_meet (m := m) (unmarked_not_all _)
      exact ⟨G, hG, fun p => by rw [lower.eq_def]; exact ⟨hlead p, rfl⟩⟩
  | has via values reverse =>
      have hfound := unmarked_linked hm values (hvia via rfl ho) hlabels
      cases reverse with
      | true =>
          obtain ⟨G, hG, hlead⟩ := exists_passage_meet (hfound .subject .object)
          exact ⟨G, hG, fun p => by rw [lower.eq_def]; exact ⟨hlead p, rfl⟩⟩
      | false =>
          obtain ⟨G, hG, hlead⟩ := exists_passage_meet (hfound .object .subject)
          exact ⟨G, hG, fun p => by rw [lower.eq_def]; exact ⟨hlead p, rfl⟩⟩
  | constrain c =>
      obtain ⟨G, hG, hlead⟩ :=
        exists_passage_filter (Table.accepts m.toStore fun v => .ok ([c].all (·.holds v)))
      exact ⟨G, hG, fun p => by rw [lower.eq_def]; exact ⟨hlead _, rfl⟩⟩
  | filter test =>
      obtain ⟨G, hG, hlead⟩ := exists_passage_filter (Table.accepts m.toStore test)
      exact ⟨G, hG, fun p => by rw [lower.eq_def]; exact ⟨hlead _, rfl⟩⟩
  | _ => exact ho.elim

/-- Ways of several operations are ways of one after the other. -/
theorem exists_passage_buildOps (hm : m.Addressable) (hscope : scope.Unmarked) {ops : List Op}
    (hb : ∀ q : Path, q.depth ≤ depthOfOps ops → Traces m bindings scope q)
    (ho : AreTraceable ops) :
    ∃ G : Passage, G.Unmarked ∧ ∀ p : Plan, Table.Leads G (p.table m.toStore)
      ((buildOps ⟨m.toStore, bindings⟩ (scope.context m.toStore) p ops).table m.toStore) := by
  induction ops with
  | nil =>
      refine ⟨_, Passage.unmarked_stay, fun p => ?_⟩
      rw [buildOps]
      exact .refl _
  | cons op ops ih =>
      obtain ⟨G, hG, hop⟩ := exists_passage_lower hm hscope
        (fun q hq => hb q (Nat.le_trans hq (Nat.le_max_left ..))) ho.1
      obtain ⟨G', hG', hops⟩ := ih (fun q hq => hb q (Nat.le_trans hq (Nat.le_max_right ..))) ho.2
      refine ⟨_, hG.andThen hG', fun p => ?_⟩
      rw [buildOps]
      dsimp only
      rw [(hop p).2]
      exact (hop p).1.trans (hops _)

theorem traces (hm : m.Addressable) (hscope : scope.Unmarked) (q : Path) :
    Traces m bindings scope q := by
  induction q using depth_induction with
  | step root ops ih =>
      intro hq
      obtain ⟨G, hG, hops⟩ := exists_passage_buildOps hm hscope ih hq
      cases root with
      | values seeds =>
          obtain ⟨G', hG', hmeet⟩ := exists_passage_meet (m := m) (unmarked_values seeds)
          refine ⟨?_, _, hG'.andThen hG, fun p => ?_⟩
          · rw [build.eq_def]
            exact unmarked_of_leads hm hG (bare_values seeds) (hops _)
          · rw [build.eq_def]
            exact (hmeet p).trans (hops _)
      | all | morphism =>
          refine ⟨?_, G, hG, fun p => ?_⟩
          · rw [build.eq_def]
            exact unmarked_of_leads hm hG bare_all (hops _)
          · rw [build.eq_def]
            exact hops p

end Path

end GraphQuery
