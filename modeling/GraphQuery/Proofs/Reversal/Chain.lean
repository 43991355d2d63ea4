import GraphQuery.Proofs.Names.Path
import GraphQuery.Proofs.Reversal.Closure
import GraphQuery.Proofs.Reversal.Itinerary

/-!
# Where itineraries lead

Every operation relates nodes; the legs of an itinerary relate the first node to the last if there
are nodes on the way that each leg relates in turn. By induction on how deeply paths are nested, the
plan of a path leads from the rows that it is applied to as the itinerary of the path does.
-/

namespace GraphQuery

open Relation (Comp TransGen)

/-! ## Chains -/

def Chain {α : Type} (R : α → Handle → Handle → Prop) : List α → Handle → Handle → Prop
  | [] => (· = ·)
  | a :: as => Comp (R a) (Chain R as)

section Chain

variable {α : Type} {R : α → Handle → Handle → Prop} {x y : Handle}

theorem chain_append (as bs : List α) :
    Chain R (as ++ bs) = Comp (Chain R as) (Chain R bs) := by
  induction as with
  | nil => exact Relation.eq_comp.symm
  | cons a as ih => rw [List.cons_append, Chain, ih, Chain, Relation.comp_assoc]

theorem chain_singleton (a : α) : Chain R [a] = R a :=
  Relation.comp_eq

theorem chain_map {β : Type} (f : β → α) (bs : List β) :
    Chain R (bs.map f) = Chain (fun b => R (f b)) bs := by
  induction bs with
  | nil => rfl
  | cons b bs ih => rw [List.map_cons, Chain, ih, Chain]

/-- If each relation is turned around, so is one after the other in opposite order. -/
theorem chain_reverse {f : α → α} {as : List α} (h : ∀ a ∈ as, ∀ x y, R (f a) y x ↔ R a x y) :
    Chain R (as.reverse.map f) y x ↔ Chain R as x y := by
  induction as generalizing x y with
  | nil => exact eq_comm
  | cons a as ih =>
      have ha := h a (List.mem_cons_self ..)
      have hrest : ∀ z, Chain R (as.reverse.map f) y z ↔ Chain R as z y := fun z =>
        ih fun b hb => h b (List.mem_cons_of_mem _ hb)
      rw [List.reverse_cons, List.map_append, chain_append, List.map_singleton, chain_singleton]
      exact exists_congr fun z => (and_congr (hrest z) (ha x z)).trans and_comm

end Chain

/-! ## Operations -/

namespace Op

variable (m : MemoryStore) (bindings : ClosureBindings) (ctx : LabelContext)

def lookedUp : Op → Plan
  | .is values => .ofValues m.toStore values
  | .and other => other.build ⟨m.toStore, bindings⟩ ctx none
  | .except other => .not (other.build ⟨m.toStore, bindings⟩ ctx none) .all
  | .has via values reverse =>
      let ends := if values.isEmpty then .all else .ofValues m.toStore values
      let via := Path.restriction ⟨m.toStore, bindings⟩ ctx via
      if reverse then .step ends .subject .object via [] ctx.demand
      else .step ends .object .subject via [] ctx.demand
  | _ => .null

def tested : Op → ValueTest
  | .constrain c => fun v => .ok ([c].all (·.holds v))
  | .filter test => test
  | _ => fun _ => .ok true

def Links : Op → Handle → Handle → Prop
  | .outgoing via _ =>
      Plan.Walks m (Path.restriction ⟨m.toStore, bindings⟩ ctx via) ctx.demand .subject .object
  | .incoming via _ =>
      Plan.Walks m (Path.restriction ⟨m.toStore, bindings⟩ ctx via) ctx.demand .object .subject
  | .both via _ => fun x y =>
      let via := Path.restriction ⟨m.toStore, bindings⟩ ctx via
      Plan.Walks m via ctx.demand .subject .object x y ∨
        Plan.Walks m via ctx.demand .object .subject x y
  | op@(.is _) | op@(.and _) | op@(.except _) | op@(.has _ _ _) => fun x y =>
      x = y ∧ (op.lookedUp m bindings ctx).Holds m.toStore x
  | op@(.constrain _) | op@(.filter _) => fun x y =>
      x = y ∧ Table.accepts m.toStore op.tested x = true
  | .followRecursive p _ _ => TransGen fun x y =>
      x ∈ m.toStore.nodes ∧ p.LeadsToBy ⟨m.toStore, bindings⟩ ctx x y
  | .unique | .order | .tag _ => (· = ·)
  | _ => fun _ _ => False

end Op

/-- Where a leg leads, given the label context of the caller. -/
def Leg.Links (m : MemoryStore) (bindings : ClosureBindings) (caller : LabelContext) (l : Leg) :
    Handle → Handle → Prop :=
  l.op.Links m bindings (l.governing.context m.toStore caller)

/-- The operation keeps or leads on rows without regard to their order or number. It may only bind
the name of a base if nothing else does. -/
def Op.IsPassable (ok : String → Prop) : Op → Prop
  | .is _ | .outgoing _ _ | .incoming _ _ | .both _ _ | .and _ | .except _ | .has _ _ _
  | .follow _ _ | .unique | .order | .tag _ | .constrain _ | .filter _ => True
  | .labelContext via _ => via.IsPlain
  | .followRecursive _ maxDepth _ => maxDepth = 0 ∧ ¬ ok baseName
  | _ => False

theorem Op.IsPassable.reversed {ok : String → Prop} : ∀ op : Op, op.IsPassable ok →
    op.reversed.IsPassable ok := by
  intro op h
  cases op <;> exact h

theorem Path.BuiltFrom.reverse_passable {ok : String → Prop} {p : Path}
    (hp : p.BuiltFrom (Op.IsPassable ok)) : p.reverse.BuiltFrom (Op.IsPassable ok) :=
  hp.reverse Op.IsPassable.reversed (fun _ => trivial) trivial

namespace Path

variable {ok : String → Prop} {m : MemoryStore} {bindings : ClosureBindings}
  {caller ctx : LabelContext} {g : Governing} {p : Plan} {T : Table}

/-- The label context cannot fail, has no hole, and binds accepted names only. -/
structure ContextSound (m : MemoryStore) (ok : String → Prop) (ctx : LabelContext) : Prop where
  within : Plan.WithinOption m.toStore.harmless ctx.labels
  solid : ∀ q, Solid q ctx
  binds : ContextBinds ok ctx

theorem contextSound_empty : ContextSound m ok {} :=
  ⟨trivial, fun _ => rfl, contextBinds_empty⟩

theorem names_harmless (hm : m.Addressable) (bindings : ClosureBindings) :
    Target.Names ⟨m.toStore, bindings⟩ m.toStore.harmless :=
  fun _ _ => (MemoryStore.coherent hm).mem_of_intern

theorem within_restriction_of (bindings : ClosureBindings) (hm : m.Addressable)
    (hctx : ContextSound m ok ctx) {via : Via}
    (hv : via.Within m.toStore.harmless) :
    Plan.WithinOption m.toStore.harmless (restriction ⟨m.toStore, bindings⟩ ctx via) :=
  within_restriction (names_harmless hm bindings)
    (fun q _ => builds (names_harmless hm bindings) q) hctx.within hv

theorem names_restriction_of (bindings : ClosureBindings) (hctx : ContextSound m ok ctx)
    {via : Via}
    (hn : ∀ n ∈ via.names, ok n) :
    ∀ n ∈ Plan.namesOfOption (restriction ⟨m.toStore, bindings⟩ ctx via), ok n :=
  names_restriction (fun q _ => namesBuilt q) hctx.binds hn

theorem contextSound_own (hm : m.Addressable) {scope : LabelScope}
    (hn : ∀ context ∈ scope, ∀ n ∈ context.2, ok n) :
    ContextSound m ok (scope.context m.toStore) := by
  cases scope with
  | none => exact contextSound_empty
  | some context =>
      refine ⟨?_, fun _ => rfl, ?_, hn context rfl⟩
      · exact within_ofValues (names_harmless hm .first) context.1
      · simp [LabelScope.context, Plan.namesOfOption, Plan.ofValues, Plan.names]

/-! ## Operations and paths -/

/-- Applied to whatever plan that shows rows, and under whatever label context, the plan of the path
leads on as the itinerary of the path does. -/
def LeadsAlong (m : MemoryStore) (ok : String → Prop) (bindings : ClosureBindings) (q : Path) :
    Prop :=
  q.BuiltFrom (Op.IsPassable ok) → q.Within m.toStore.harmless → (∀ n ∈ q.names, ok n) →
    ∀ (caller : LabelContext) (g : Governing) (p : Plan) (T : Table),
      ContextSound m ok (g.context m.toStore caller) → p.Scans m T →
      ∃ U, (build ⟨m.toStore, bindings⟩ (g.context m.toStore caller) (some p) q).Scans m U ∧
        Table.Relays ok (Chain (Leg.Links m bindings caller) (q.itinerary g)) T U

theorem scans_table (hm : m.Addressable) (hp : p.Within m.toStore.unlimited) :
    p.Scans m (p.table m.toStore) := by
  have htabular := Plan.tabular_of_unlimited hp
  exact ⟨htabular.within, by rw [htabular.meaning_eq (MemoryStore.coherent hm)]; rfl⟩

theorem meaningOn_level_of (hctx : ContextSound m ok ctx) (q : Path) (frontier : Reached) :
    (build ⟨m.toStore, bindings⟩ ctx (some .input) q).meaningOn m.toStore (.level frontier) =
      (build ⟨m.toStore, bindings⟩ ctx (some (levelPlan frontier)) q).meaning m.toStore := by
  have hlevel : Meaning.level frontier = (levelPlan frontier).meaningOn m.toStore Plan.noHole := rfl
  rw [hlevel, ← Plan.meaningOn_fill, fill_build _ _ _ _ _ (hctx.solid _)]
  rfl

theorem leadsToBy_iff_of_scans {q : Path} {x y : Handle}
    (hT : (build ⟨m.toStore, bindings⟩ ctx (some (.fixed (.ofList [x]))) q).Scans m T) :
    q.LeadsToBy ⟨m.toStore, bindings⟩ ctx x y ↔ y ∈ T.rows.map Row.handle := by
  constructor
  · rintro ⟨rows, hrows, hy⟩
    rw [hT.report] at hrows
    obtain rfl : T.rows = rows := by simpa using hrows
    exact hy
  · exact fun hy => ⟨_, hT.report, hy⟩

section

variable {q : Path} (hq : LeadsAlong m ok bindings q) (hkinds : q.BuiltFrom (Op.IsPassable ok))
  (hwithin : q.Within m.toStore.harmless) (hnames : ∀ n ∈ q.names, ok n)
  (hctx : ContextSound m ok (g.context m.toStore caller))
include hq hkinds hwithin hnames hctx

/-- From a node a path leads where its itinerary does. -/
theorem leadsToBy_iff (hm : m.Addressable) {x y : Handle} (hx : x ∈ m.toStore.nodes) :
    q.LeadsToBy ⟨m.toStore, bindings⟩ (g.context m.toStore caller) x y ↔
      Chain (Leg.Links m bindings caller) (q.itinerary g) x y := by
  have hentries : ((Plan.fixed (.ofList [x])).table m.toStore).entries = [⟨x, .empty⟩] :=
    Table.entries_leaf _ _
  obtain ⟨U, hU, hrelays⟩ :=
    hq hkinds hwithin hnames caller g _ _ hctx (scans_table hm (within_node hx))
  rw [leadsToBy_iff_of_scans hU, mem_handles_entries (hU.sets_ne_nil hm), hrelays.nodes y]
  simp [hentries]

theorem mem_nodes_of_leadsToBy (hm : m.Addressable) {x y : Handle} (hx : x ∈ m.toStore.nodes)
    (h : q.LeadsToBy ⟨m.toStore, bindings⟩ (g.context m.toStore caller) x y) :
    y ∈ m.toStore.nodes := by
  obtain ⟨U, hU, -⟩ :=
    hq hkinds hwithin hnames caller g _ _ hctx (scans_table hm (within_node hx))
  obtain ⟨r, hr, rfl⟩ := List.mem_map.1 ((leadsToBy_iff_of_scans hU).1 h)
  exact (hU.safeRows hm r hr).1

/-- A level finds what is one application of the path beyond its frontier. -/
theorem steps_level (hm : m.Addressable) (hbase : ¬ ok baseName) :
    Feed.Steps (fun x y => x ∈ m.toStore.nodes ∧
        q.LeadsToBy ⟨m.toStore, bindings⟩ (g.context m.toStore caller) x y)
      (· ∈ m.toStore.nodes) fun frontier =>
        ((build ⟨m.toStore, bindings⟩ (g.context m.toStore caller) (some .input) q).meaningOn
          m.toStore (.level frontier)).feed.delivered := by
  intro frontier hf
  have hlevel : (levelPlan frontier).Within m.toStore.unlimited := Reached.forall_inputs hf
  have hentries := entries_levelPlan m.toStore frontier
  obtain ⟨U, hU, hrelays⟩ := hq hkinds hwithin hnames caller g _ _ hctx (scans_table hm hlevel)
  simp only [meaningOn_level_of hctx, hU.feed, Feed.delivered_ofRows]
  refine ⟨⟨rfl, fun y => ?_, fun r hr t ht => ?_⟩, hU.safeRows hm⟩
  · rw [mem_handles_entries (hU.sets_ne_nil hm), hrelays.nodes y, hentries]
    simp only [List.mem_map, exists_exists_and_eq_and, Reached.mem_inputs]
    refine exists_congr fun x => and_congr_right fun hx => ?_
    obtain ⟨u, hu⟩ := Reached.mem_handles.1 hx
    rw [and_iff_right (hf _ hu)]
    exact (leadsToBy_iff hq hkinds hwithin hnames hctx hm (hf _ hu)).symm
  · obtain ⟨q', hq', u, hu, htags⟩ :=
      hrelays.kept ⟨r.handle, t⟩ (Table.mem_entries.2 ⟨r, hr, rfl, ht⟩)
    rw [hentries] at hq'
    obtain ⟨x, hx, rfl⟩ := List.mem_map.1 hq'
    refine ⟨x, Reached.mem_inputs.1 hx, ?_⟩
    rw [show t = _ from htags, hu.get?_override hbase]
    simp

end

/-- What an operation makes of a plan leads on from it as the legs of the operation do, under the
label context that governs the next operation. -/
structure LowersTo (m : MemoryStore) (ok : String → Prop) (bindings : ClosureBindings)
    (caller : LabelContext) (g : Governing) (T : Table) (op : Op) (r : Plan × LabelContext) :
    Prop where
  scans : ∃ U, r.1.Scans m U ∧
    Table.Relays ok (Chain (Leg.Links m bindings caller) (legs g op)) T U
  context_eq : r.2 = (g.after op).context m.toStore caller
  sound : ContextSound m ok r.2

theorem chain_legs {op : Op} (hfollow : ∀ q reverse, op ≠ .follow q reverse)
    (hlabel : ∀ via names, op ≠ .labelContext via names) :
    Chain (Leg.Links m bindings caller) (legs g op) =
      op.Links m bindings (g.context m.toStore caller) := by
  cases op with
  | follow q reverse => exact (hfollow q reverse rfl).elim
  | labelContext via names => exact (hlabel via names rfl).elim
  | _ =>
      rw [legs, chain_singleton]
      · rfl
      all_goals simp

/-- For most operations it is enough to see where the operation itself leads. -/
theorem LowersTo.of_links {op : Op} {r : Plan} (hfollow : ∀ q reverse, op ≠ .follow q reverse)
    (hlabel : ∀ via names, op ≠ .labelContext via names)
    (hctx : ContextSound m ok (g.context m.toStore caller))
    (h : ∃ U, r.Scans m U ∧
      Table.Relays ok (op.Links m bindings (g.context m.toStore caller)) T U) :
    LowersTo m ok bindings caller g T op (r, g.context m.toStore caller) where
  scans := by rwa [chain_legs hfollow hlabel]
  context_eq := by rw [g.after_of_ne hlabel]
  sound := hctx

/-- A path that an operation goes on with leads on in its place, under the same label context. -/
theorem LowersTo.of_path {q r : Path} {reverse : Bool}
    (hlegs : legs g (.follow q reverse) = r.itinerary g) (hr : LeadsAlong m ok bindings r)
    (hkinds : r.BuiltFrom (Op.IsPassable ok)) (hwithin : r.Within m.toStore.harmless)
    (hnames : ∀ n ∈ r.names, ok n) (hctx : ContextSound m ok (g.context m.toStore caller))
    (hp : p.Scans m T) :
    LowersTo m ok bindings caller g T (.follow q reverse)
      (build ⟨m.toStore, bindings⟩ (g.context m.toStore caller) (some p) r,
        g.context m.toStore caller) where
  scans := hlegs ▸ hr hkinds hwithin hnames caller g p T hctx hp
  context_eq := rfl
  sound := hctx

theorem lowersTo_labelContext (hm : m.Addressable) {via : Via} (hvia : via.IsPlain)
    {own : List String} (hown : ∀ n ∈ own, ok n) (hp : p.Scans m T) :
    LowersTo m ok bindings caller g T (.labelContext via own)
      (lower ⟨m.toStore, bindings⟩ (g.context m.toStore caller) p (.labelContext via own)) := by
  have hscans : ∃ U, p.Scans m U ∧ Table.Relays ok
      (Chain (Leg.Links m bindings caller) (legs g (.labelContext via own))) T U := by
    rw [legs]
    exact ⟨T, hp, .refl T⟩
  rw [lower.eq_def]
  cases via with
  | path q => exact hvia.elim
  | all =>
      refine ⟨hscans, ?_, ?_⟩
      · simp [restriction, Governing.after, Governing.context, LabelScope.after,
          LabelScope.context]
      · simpa [restriction] using contextSound_empty
  | values values =>
      refine ⟨hscans, ?_, ?_⟩
      · simp [restriction, Governing.after, Governing.context, LabelScope.after,
          LabelScope.context]
      · have hscope : ∀ context ∈ (some (values, own) : LabelScope), ∀ n ∈ context.2, ok n := by
          simpa using hown
        simpa [restriction, LabelScope.context] using contextSound_own hm hscope

theorem lookedUp_sound (bindings : ClosureBindings) (hm : m.Addressable)
    (hctx : ContextSound m ok ctx) {op : Op}
    (hwithin : op.Within m.toStore.harmless) (hnames : ∀ n ∈ op.names, ok n) :
    (op.lookedUp m bindings ctx).Within m.toStore.harmless ∧
      ∀ n ∈ (op.lookedUp m bindings ctx).names, ok n := by
  have hvalues : ∀ values : List Value,
      (Plan.ofValues m.toStore values).Within m.toStore.harmless :=
    within_ofValues (names_harmless hm bindings)
  have hother : ∀ q : Path, q.Within m.toStore.harmless → (∀ n ∈ q.names, ok n) →
      (build ⟨m.toStore, bindings⟩ ctx none q).Within m.toStore.harmless ∧
        ∀ n ∈ (build ⟨m.toStore, bindings⟩ ctx none q).names, ok n := fun q hw hn =>
    ⟨builds (names_harmless hm bindings) q hw ctx none hctx.within trivial,
      namesBuilt q hn ctx none hctx.binds (by simp [Plan.namesOfOption])⟩
  cases op with
  | is values => exact ⟨hvalues values, by simp [Op.lookedUp, Plan.ofValues, Plan.names]⟩
  | and other => exact hother other hwithin hnames
  | except other =>
      obtain ⟨hw, hn⟩ := hother other hwithin hnames
      exact ⟨⟨hw, trivial⟩, by simpa [Op.lookedUp, Plan.names] using hn⟩
  | has via values reverse =>
      have hends : (if values.isEmpty then Plan.all else
          .ofValues m.toStore values).Within m.toStore.harmless ∧
          ∀ n ∈ (if values.isEmpty then Plan.all else .ofValues m.toStore values).names, ok n := by
        split
        · exact ⟨trivial, by simp [Plan.names]⟩
        · exact ⟨hvalues values, by simp [Plan.ofValues, Plan.names]⟩
      have hv := within_restriction_of bindings hm hctx hwithin
      have hn := names_restriction_of bindings hctx hnames
      have hstep : ∀ fromEnd toEnd, (Plan.step (if values.isEmpty then Plan.all else
          .ofValues m.toStore values) fromEnd toEnd (restriction ⟨m.toStore, bindings⟩ ctx via) []
            ctx.demand).Within m.toStore.harmless ∧
          ∀ n ∈ (Plan.step (if values.isEmpty then Plan.all else .ofValues m.toStore values) fromEnd
            toEnd (restriction ⟨m.toStore, bindings⟩ ctx via) [] ctx.demand).names, ok n := by
        intro fromEnd toEnd
        refine ⟨⟨hends.1, hv, within_demand hctx.within⟩, ?_⟩
        simp only [Plan.names, List.append_nil, List.forall_mem_append]
        exact ⟨⟨hends.2, hn⟩, hctx.binds.demand⟩
      unfold Op.lookedUp
      cases reverse with
      | true => exact hstep .subject .object
      | false => exact hstep .object .subject
  | _ => exact ⟨trivial, by simp [Op.lookedUp, Plan.names]⟩

theorem scans_walk (bindings : ClosureBindings) (hm : m.Addressable)
    (hctx : ContextSound m ok ctx) (hp : p.Scans m T) (fromEnd toEnd : Direction) {via : Via}
    {own : List String} (hvia : via.Within m.toStore.harmless)
    (hn : ∀ n ∈ via.names ++ own, ok n) :
    ∃ U, (Plan.step p fromEnd toEnd (restriction ⟨m.toStore, bindings⟩ ctx via) own
        ctx.demand).Scans m U ∧
      Table.Relays ok (Plan.Walks m (restriction ⟨m.toStore, bindings⟩ ctx via) ctx.demand fromEnd
        toEnd) T U := by
  obtain ⟨hnames, hown⟩ := List.forall_mem_append.1 hn
  exact hp.walk hm fromEnd toEnd (within_restriction_of bindings hm hctx hvia)
    (within_demand hctx.within) ⟨names_restriction_of bindings hctx hnames, hown,
      hctx.binds.demand⟩

/-- Each operation that is passable leads on rows, if the paths do that it goes on with. -/
theorem lowersTo (hm : m.Addressable) {op : Op}
    (hb : ∀ q : Path, q.depth ≤ op.depth → LeadsAlong m ok bindings q)
    (hkinds : op.BuiltFrom (Op.IsPassable ok)) (hwithin : op.Within m.toStore.harmless)
    (hnames : ∀ n ∈ op.names, ok n) (hctx : ContextSound m ok (g.context m.toStore caller))
    (hp : p.Scans m T) :
    LowersTo m ok bindings caller g T op
      (lower ⟨m.toStore, bindings⟩ (g.context m.toStore caller) p op) := by
  have hlooked := lookedUp_sound bindings hm hctx hwithin hnames
  have hmeet := hp.meet hm hlooked.1 hlooked.2
  have hwalk := scans_walk bindings hm hctx hp
  rw [lower.eq_def]
  cases op with
  | is values | and other | except other => exact .of_links (by simp) (by simp) hctx hmeet
  | has via values reverse =>
      refine .of_links (by simp) (by simp) hctx ?_
      cases reverse with
      | true => exact hmeet
      | false => exact hmeet
  | outgoing via own =>
      exact .of_links (by simp) (by simp) hctx (hwalk .subject .object hwithin hnames)
  | incoming via own =>
      exact .of_links (by simp) (by simp) hctx (hwalk .object .subject hwithin hnames)
  | both via own =>
      obtain ⟨U, hU, hforth⟩ := hwalk .subject .object hwithin hnames
      obtain ⟨V, hV, hback⟩ := hwalk .object .subject hwithin hnames
      exact .of_links (by simp) (by simp) hctx ⟨_, hU.union hV, hforth.either hback⟩
  | follow q reverse =>
      cases reverse with
      | false =>
          exact .of_path (by simp [legs]) (hb q (Nat.le_refl _)) hkinds.2 hwithin hnames hctx hp
      | true =>
          exact .of_path (by simp [legs]) (hb _ (depth_reverse_le q)) hkinds.2.reverse_passable
            (within_reverse hwithin) (names_reverse hnames) hctx hp
  | followRecursive q maxDepth own =>
      obtain ⟨rfl, hbase⟩ : maxDepth = 0 ∧ ¬ ok baseName := hkinds.kind
      obtain ⟨hnames, hown⟩ := List.forall_mem_append.1 hnames
      have hsteps := steps_level (hb q (Nat.le_refl _)) hkinds.2 hwithin hnames hctx hm hbase
      have hmorphism : (build ⟨m.toStore, bindings⟩ (g.context m.toStore caller) (some .input)
          q).Within m.toStore.harmless :=
        builds (names_harmless hm bindings) q hwithin _ _ hctx.within trivial
      exact .of_links (by simp) (by simp) hctx (hp.recursive hm hmorphism hsteps hown bindings)
  | unique => exact .of_links (by simp) (by simp) hctx (hp.unique hm)
  | order => exact .of_links (by simp) (by simp) hctx (hp.sort hm)
  | tag own => exact .of_links (by simp) (by simp) hctx (hp.save hnames)
  | labelContext via own =>
      have hown := (List.forall_mem_append.1 hnames).2
      simpa only [lower.eq_def] using lowersTo_labelContext hm hkinds hown hp
  | constrain c =>
      refine .of_links (by simp) (by simp) hctx (hp.test hm (fun h v _ => ⟨_, rfl⟩) hp.within rfl)
  | filter test =>
      refine .of_links (by simp) (by simp) hctx (hp.test hm hwithin ⟨hwithin, hp.within⟩ rfl)
  | or | limit | skip | map | inPredicates | outPredicates | labels => exact hkinds.kind.elim

/-- One operation after the other leads on as the itinerary does. -/
theorem leadsAlong_buildOps (hm : m.Addressable) {ops : List Op}
    (hb : ∀ q : Path, q.depth ≤ depthOfOps ops → LeadsAlong m ok bindings q)
    (hkinds : ∀ op ∈ ops, op.BuiltFrom (Op.IsPassable ok))
    (hwithin : ∀ op ∈ ops, op.Within m.toStore.harmless) (hnames : ∀ op ∈ ops, ∀ n ∈ op.names, ok n)
    (hctx : ContextSound m ok (g.context m.toStore caller)) (hp : p.Scans m T) :
    ∃ U, (buildOps ⟨m.toStore, bindings⟩ (g.context m.toStore caller) p ops).Scans m U ∧
      Table.Relays ok (Chain (Leg.Links m bindings caller) (itineraryOfOps g ops)) T U := by
  induction ops generalizing g p T with
  | nil =>
      rw [buildOps, itineraryOfOps]
      exact ⟨T, hp, .refl T⟩
  | cons op ops ih =>
      obtain ⟨hkind, hkinds⟩ := List.forall_mem_cons.1 hkinds
      obtain ⟨hop, hwithin⟩ := List.forall_mem_cons.1 hwithin
      obtain ⟨hown, hnames⟩ := List.forall_mem_cons.1 hnames
      obtain ⟨⟨U, hU, hfirst⟩, hnext, hsound⟩ := lowersTo hm
        (fun q hq => hb q (Nat.le_trans hq (Nat.le_max_left ..))) hkind hop hown hctx hp
      rw [hnext] at hsound
      obtain ⟨V, hV, hrest⟩ := ih (fun q hq => hb q (Nat.le_trans hq (Nat.le_max_right ..)))
        hkinds hwithin hnames hsound hU
      rw [buildOps, itineraryOfOps, chain_append]
      dsimp only
      rw [hnext]
      exact ⟨V, hV, hfirst.trans hrest⟩

/-- The plan of a path leads on as the itinerary of the path does. -/
theorem leadsAlong (hm : m.Addressable) (q : Path) : LeadsAlong m ok bindings q := by
  induction q using depth_induction with
  | step root ops ih =>
      intro hkinds hwithin hnames caller g p T hctx hp
      have hrest := fun {p : Plan} {T : Table} (hp : p.Scans m T) =>
        leadsAlong_buildOps hm ih (builtFrom_iff.1 hkinds) (within_iff.1 hwithin)
          (names_iff.1 hnames) hctx hp
      rw [itinerary_eq, build.eq_def]
      cases root with
      | all | morphism => exact hrest hp
      | values seeds =>
          -- The seeds are met as values that are to be kept are.
          have hseeds : ∀ n ∈ (Plan.ofValues m.toStore seeds).names, ok n := by
            simp [Plan.ofValues, Plan.names]
          obtain ⟨U, hU, hmet⟩ :=
            hp.meet hm (within_ofValues (names_harmless hm bindings) seeds) hseeds
          obtain ⟨V, hV, hops⟩ := hrest hU
          refine ⟨V, hV, ?_⟩
          rw [opsFromRoot]
          dsimp only [Path.root, Path.ops]
          rw [itineraryOfOps, chain_append, chain_legs (by simp) (by simp), g.after_of_ne (by simp)]
          exact hmet.trans hops

end Path

end GraphQuery
