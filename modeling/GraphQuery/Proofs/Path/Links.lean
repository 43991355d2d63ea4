import GraphQuery.Proofs.Narrowing.Query
import GraphQuery.Proofs.Paging.Query
import GraphQuery.Proofs.Path.Compiled
import GraphQuery.Proofs.Reversal.Follow

/-!
# Nodes kept for their quads

A path keeps the nodes with a quad to one of some values by meeting its plan with a step back from
these values. The step finds a node once for each such quad, and where rows are binding sets the
meeting repeats a row as often. So rows without a quad are dropped, nothing is bound anew, and a row
is kept as it is if its node has one quad; with several it is repeated.
-/

namespace GraphQuery

/-! ## Repeated binding sets -/

def Row.repeated (k : Handle → Nat) (r : Row) : Row :=
  ⟨r.handle, r.sets.flatMap (List.replicate (k r.handle))⟩

namespace Row

variable {k : Handle → Nat}

theorem results_repeated (r : Row) :
    (r.repeated k).results = r.results.flatMap fun x => List.replicate (k x.id) x := by
  simp [results, repeated, List.map_flatMap, List.flatMap_map]

theorem first_repeated (r : Row) :
    ((r.repeated k).upTo 0).results = (r.upTo 0).results.filter fun x => 0 < k x.id := by
  obtain ⟨h, sets⟩ := r
  cases sets with
  | nil => rfl
  | cons t sets =>
      cases hk : k h with
      | zero => simp [results, repeated, upTo, hk]
      | succ n => simp [results, repeated, upTo, hk, List.replicate_succ]

end Row

theorem Tags.product_replicate (sets : List Tags) (n : Nat) :
    product [sets, List.replicate n .empty] = sets.flatMap (List.replicate n) := by
  rw [product_cons, product_singleton]
  refine List.flatMap_congr fun t _ => ?_
  simp

namespace Table

/-- Meeting a table that binds nothing repeats binding sets. -/
theorem rows_join_repeated {T U : Table} {k : Handle → Nat}
    (hU : ∀ h, U.sets h = List.replicate (k h) .empty) :
    (join [T, U] 0).rows = boundRows (T.rows.map (Row.repeated k)) := by
  refine congrArg boundRows (List.map_congr_left fun r _ => ?_)
  show Row.mk r.handle (Tags.product [r.sets, U.sets r.handle]) = _
  rw [hU, Tags.product_replicate]
  rfl

theorem flatMap_boundRows {α : Type} {f : Row → List α} (hf : ∀ r, r.sets = [] → f r = [])
    (rows : List Row) : (boundRows rows).flatMap f = rows.flatMap f := by
  induction rows with
  | nil => rfl
  | cons r rows ih =>
      rw [boundRows_cons, List.flatMap_cons]
      by_cases hr : r.sets = []
      · rw [if_pos hr, ih, hf r hr, List.nil_append]
      · rw [if_neg hr, List.flatMap_cons, ih]

/-- What is collected of the meeting: every row as often as its node counts, or, of each result only
the first row being collected, that row if its node counts. -/
theorem shown_join_repeated {T U : Table} {k : Handle → Nat}
    (hU : ∀ h, U.sets h = List.replicate (k h) .empty) (paths : Bool) :
    let shown (rows : List Row) : List ResultRow :=
      rows.flatMap fun r => (if paths then r else r.upTo 0).results
    shown (join [T, U] 0).rows =
      if paths then (shown T.rows).flatMap fun x => List.replicate (k x.id) x
      else (shown T.rows).filter fun x => 0 < k x.id := by
  intro shown
  have hbound : shown (join [T, U] 0).rows = shown (T.rows.map (Row.repeated k)) := by
    rw [rows_join_repeated hU]
    refine flatMap_boundRows (fun r hr => ?_) _
    cases paths <;> simp [Row.results, Row.upTo, hr]
  rw [hbound]
  cases paths with
  | true =>
      simp only [shown, if_true, List.flatMap_map, List.flatMap_assoc]
      exact List.flatMap_congr fun r _ => r.results_repeated
  | false =>
      simp only [shown, Bool.false_eq_true, if_false, List.flatMap_map, List.filter_flatMap]
      exact List.flatMap_congr fun r _ => r.first_repeated

end Table

/-- Elements that are repeated as often as they count are those that count, but for their order, if
and only if none counts twice. -/
theorem replicate_perm_filter_iff {α : Type} [DecidableEq α] (k : α → Nat) (xs : List α) :
    (xs.flatMap fun x => List.replicate (k x) x).Perm (xs.filter fun x => 0 < k x) ↔
      ∀ x ∈ xs, k x ≤ 1 := by
  have hcount (x : α) :
      (xs.flatMap fun y => List.replicate (k y) y).count x = xs.count x * k x := by
    induction xs with
    | nil => simp
    | cons y xs ih =>
        rw [List.flatMap_cons, List.count_append, ih, List.count_cons, List.count_replicate]
        by_cases hy : y = x
        · subst hy
          simp [Nat.add_mul, Nat.add_comm]
        · simp [hy]
  constructor
  · intro hperm x hx
    have hpos : 0 < xs.count x := List.count_pos_iff.2 hx
    have hle : xs.count x * k x ≤ xs.count x * 1 := by
      rw [← hcount x, hperm.count_eq, Nat.mul_one]
      exact List.Sublist.count_le x List.filter_sublist
    exact Nat.le_of_mul_le_mul_left hle hpos
  · intro hone
    refine .of_eq ?_
    clear hcount
    induction xs with
    | nil => rfl
    | cons x xs ih =>
        have hrest := ih fun y hy => hone y (List.mem_cons_of_mem _ hy)
        rw [List.flatMap_cons, hrest, List.filter_cons]
        have hx := hone x (List.mem_cons_self ..)
        obtain h | h : k x = 0 ∨ k x = 1 := by omega
        · simp [h]
        · simp [h]

/-! ## Quads at a node -/

namespace MemoryStore

variable {m : MemoryStore}

/-- How many quads with an admitted predicate lead from a node to one of the targets, or, reversed,
to a node from one of them; without targets, how many there are at all. -/
def links (m : MemoryStore) (via : Via) (targets : List Value) (reverse : Bool) (h : Handle) :
    Nat :=
  m.quads.toList.countP fun q =>
    (if reverse then q.object else q.subject) = h && m.admitsPredicate via q.predicate &&
      (targets.isEmpty || m.isOneOf targets (if reverse then q.subject else q.object))

theorem containsNode_of_mem {q : Quad} (hq : q ∈ m.quads.toList) {d : Direction} {h : Handle}
    (hd : q.at d = some h) : m.containsNode h = true :=
  decide_eq_true (m.issued q hq d h hd)

end MemoryStore

theorem flatMap_ite_singleton {α β : Type} (p : α → Bool) (b : β) (xs : List α) :
    (xs.flatMap fun x => if p x then [b] else []) = List.replicate (xs.countP p) b := by
  induction xs with
  | nil => rfl
  | cons x xs ih =>
      rw [List.flatMap_cons, ih, List.countP_cons]
      by_cases hx : p x = true
      · simp [hx, List.replicate_succ]
      · simp [hx]

namespace Path

variable {m : MemoryStore} {via : Via}

/-- A step back from some ends finds a node once for each quad that leads to one of them. -/
theorem sets_step_back (bindings : ClosureBindings) (hm : m.Addressable) (hv : via.IsPlain)
    (far near : Direction) {T : Table} {ends : Handle → Bool}
    (hT : ∀ q ∈ m.quads.toList, ∀ x, q.at far = some x →
      T.sets x = if ends x then [.empty] else []) (h : Handle) :
    (T.step ⟨m.toStore, far, near⟩ (demands m bindings none via [])).sets h =
      List.replicate (m.quads.toList.countP fun q => q.at near = some h &&
        m.admitsPredicate via q.predicate && (q.at far).any ends) .empty := by
  have hlisted : ∀ d h, m.toStore.quadsWith d h =
      m.quadIds.filter fun id => (m.toStore.quad id).bind (·.at d) = some h :=
    MemoryStore.quadsWith_eq hm
  show ((m.toStore.quadsWith near h).flatMap _) = _
  rw [Table.flatMap_listed hlisted, ← flatMap_ite_singleton, ← MemoryStore.quadIds_flatMap hm]
  refine List.flatMap_congr fun id _ => ?_
  show (if (m.quad id).bind (·.at near) = some h then
    ((m.quad id).bind fun q => (q.at far).map (q, ·)).toList.flatMap _ else []) = _
  cases hq : m.quad id with
  | none => simp
  | some q =>
      have hmem : q ∈ m.quads.toList := Array.mem_toList_iff.2 (Array.mem_of_getElem? hq)
      simp only [Option.bind_some, Option.toList_some, List.flatMap_singleton]
      by_cases hnear : q.at near = some h
      · rw [if_pos hnear]
        cases hfar : q.at far with
        | none => simp
        | some x =>
            simp only [Option.map_some, Option.toList_some, List.flatMap_singleton,
              Tags.product_cons, product_choices hv, hT q hmem x hfar, Option.any_some,
              MemoryStore.admitsLabel, MemoryStore.bindLabel, hnear]
            cases ends x <;> cases m.admitsPredicate via q.predicate <;> rfl
      · rw [if_neg hnear]
        simp [hnear]

def linked (m : MemoryStore) (bindings : ClosureBindings) (via : Via) (targets : List Value)
    (reverse : Bool) : Plan :=
  let ends : Plan := if targets.isEmpty then .all else .ofValues m.toStore targets
  let via := restriction ⟨m.toStore, bindings⟩ {} via
  if reverse then .step ends .subject .object via [] none
  else .step ends .object .subject via [] none

theorem sets_linked (bindings : ClosureBindings) (hm : m.Addressable) (hv : via.IsPlain)
    (targets : List Value) (reverse : Bool) (h : Handle) :
    ((linked m bindings via targets reverse).table m.toStore).sets h =
      List.replicate (m.links via targets reverse h) .empty := by
  have hends {q : Quad} (hq : q ∈ m.quads.toList) {d : Direction} {x : Handle}
      (hx : q.at d = some x) :
      ((if targets.isEmpty then Plan.all else .ofValues m.toStore targets).table m.toStore).sets x =
        if targets.isEmpty || m.isOneOf targets x then [.empty] else [] := by
    cases targets.isEmpty with
    | true =>
        show (if m.containsNode x then _ else _) = _
        rw [MemoryStore.containsNode_of_mem hq hx]
        rfl
    | false => exact MemoryStore.sets_ofValues targets x
  have hback (far near : Direction) := sets_step_back bindings hm hv far near
    (fun q hq x hx => hends hq hx) h
  cases reverse with
  | true =>
      have hsets := hback .subject .object
      simp only [Quad.at, Option.some.injEq, Option.any_some] at hsets
      exact hsets
  | false =>
      have hsets := hback .object .subject
      simp only [Quad.at, Option.some.injEq, Option.any_some] at hsets
      exact hsets

theorem within_linked (bindings : ClosureBindings) (hm : m.Addressable) (hv : via.IsPlain)
    (targets : List Value) (reverse : Bool) :
    (linked m bindings via targets reverse).Within m.toStore.unlimited := by
  have hends : (if targets.isEmpty then Plan.all else .ofValues m.toStore targets).Within
      m.toStore.unlimited := by
    split
    · trivial
    · exact Plan.within_values hm targets
  cases reverse with
  | true => exact ⟨hends, within_plain hm hv, trivial⟩
  | false => exact ⟨hends, within_plain hm hv, trivial⟩

end Path

/-! ## Label contexts -/

/-- Whether quads are walked under a label context after the operation. -/
def Op.labelled (before : Bool) : Op → Bool
  | .labelContext .all _ => false
  | .labelContext _ _ => true
  | _ => before

namespace Path

def Labelled (p : Path) : Prop :=
  p.ops.foldl Op.labelled false = true

instance (p : Path) : Decidable p.Labelled :=
  inferInstanceAs (Decidable (_ = true))

theorem labelled_lower (target : Target) (ctx : LabelContext) (p : Plan) (op : Op) :
    (lower target ctx p op).2.labels.isSome = op.labelled ctx.labels.isSome := by
  rw [lower.eq_def]
  cases op with
  | labelContext via names =>
      cases via <;> simp [restriction, Op.labelled]
  | follow morphism reverse => cases reverse <;> rfl
  | _ => rfl

/-- The last operation is lowered under the label context that the others leave in force. -/
theorem exists_lower_last (target : Target) (ctx : LabelContext) (p : Plan) (ops : List Op) :
    ∃ ctx', ctx'.labels.isSome = ops.foldl Op.labelled ctx.labels.isSome ∧
      ∀ op, buildOps target ctx p (ops ++ [op]) =
        (lower target ctx' (buildOps target ctx p ops) op).1 := by
  induction ops generalizing ctx p with
  | nil => exact ⟨ctx, rfl, fun op => by simp only [List.nil_append, buildOps]⟩
  | cons op ops ih =>
      obtain ⟨ctx', hlabels, hlast⟩ := ih (lower target ctx p op).2 (lower target ctx p op).1
      rw [labelled_lower] at hlabels
      refine ⟨ctx', hlabels, fun last => ?_⟩
      rw [List.cons_append, buildOps, buildOps]
      exact hlast last

/-- Without a label context the plan of a path is met with a step back. -/
theorem compile_push_has {path : Path} (hpath : ¬path.Labelled) (m : MemoryStore)
    (bindings : ClosureBindings) {via : Via} (hv : via.IsPlain) (targets : List Value)
    (reverse : Bool) :
    (path.push (.has via targets reverse)).compile m.toStore bindings =
      .and [path.compile m.toStore bindings, linked m bindings via targets reverse] 0 := by
  obtain ⟨root, ops⟩ := path
  obtain ⟨ctx, hlabels, hlast⟩ := exists_lower_last ⟨m.toStore, bindings⟩ {}
    ((Path.mk root []).compile m.toStore bindings) ops
  have hnone : ctx.labels = none := by
    rw [← Option.not_isSome_iff_eq_none, hlabels]
    exact hpath
  have hvia : restriction ⟨m.toStore, bindings⟩ ctx via =
      restriction ⟨m.toStore, bindings⟩ {} via := by
    cases via with
    | all | values values => simp only [restriction]
    | path p => exact hv.elim
  show (Path.mk root (ops ++ [_])).compile m.toStore bindings = _
  rw [compile_mk, hlast, ← compile_mk, lower]
  simp only [hvia, LabelContext.demand, hnone]
  rfl

end Path

/-! ## Queries -/

namespace Session

/-- What is collected of a path that keeps the nodes with a quad to one of the targets. If every
binding set is a row, each row of the path is collected once for each quad of its node, so these are
the rows whose nodes have one, but for their order, if and only if no node of a row has two. If of
each result only the first row is collected, they are always just these rows. -/
theorem collect_has (m : MemoryStore) (hm : m.Addressable) (config : Config)
    (hlimit : config.defaultLimit = none) (path : Path) (hpath : path.Within m.toStore.unlimited)
    (hlabels : ¬path.Labelled) (via : Via) (hv : via.IsPlain) (targets : List Value)
    (reverse : Bool) :
    let s : Session := ⟨m.toStore, { config with optimize := false }⟩
    let count (r : ResultRow) : Nat := m.links via targets reverse r.id
    ∃ rows kept,
      s.collect path none .never = (.ok rows, .never) ∧
      s.collect (path.push (.has via targets reverse)) none .never = (.ok kept, .never) ∧
      kept = (if config.includePaths then rows.flatMap fun r => List.replicate (count r) r
        else rows.filter fun r => 0 < count r) ∧
      (kept.Perm (rows.filter fun r => 0 < count r) ↔
        (config.includePaths = true → ∀ r ∈ rows, count r ≤ 1)) := by
  intro s count
  have hs := MemoryStore.coherent hm
  let plan := path.compile m.toStore config.bindings
  let links := Path.linked m config.bindings via targets reverse
  have hplan : plan.Within m.toStore.unlimited :=
    Path.within_compile (fun _ _ hv => hs.mem_of_intern hv) hpath config.bindings
  have hkept : (Plan.and [plan, links] 0).Within m.toStore.unlimited :=
    ⟨hplan, Path.within_linked _ hm hv targets reverse, trivial⟩
  have hpush : (s.prepare (path.push (.has via targets reverse)) .never).1 =
      .ok (.and [plan, links] 0) :=
    (prepare_plain rfl _).trans
      (congrArg Except.ok (Path.compile_push_has hlabels m config.bindings hv targets reverse))
  have hcollect := collect_table (s := s) hs hlimit (prepare_plain rfl path)
    (Plan.tabular_of_unlimited hplan)
  have hcollect' := collect_table (s := s) hs hlimit hpush (Plan.tabular_of_unlimited hkept)
  have hshown := Table.shown_join_repeated (T := plan.table m.toStore)
    (Path.sets_linked config.bindings hm hv targets reverse) config.includePaths
  suffices h : ∃ rows kept, s.collect path none .never = (.ok rows, .never) ∧
      s.collect (path.push (.has via targets reverse)) none .never = (.ok kept, .never) ∧
      kept = if config.includePaths then rows.flatMap fun r => List.replicate (count r) r
        else rows.filter fun r => 0 < count r by
    obtain ⟨rows, kept, hrows, hkept, rfl⟩ := h
    refine ⟨rows, _, hrows, hkept, rfl, ?_⟩
    cases config.includePaths with
    | true => simpa using replicate_perm_filter_iff count rows
    | false => simp
  exact ⟨_, _, hcollect, hcollect', hshown⟩

/-- Dani is followed by Charlie only, and follows two: kept for being followed Dani is collected
once, and kept for following twice. -/
theorem dani_kept :
    let dani : Path := .mk (.values [.iri "dani"]) []
    let row : ResultRow := ⟨.ofNat 5, Tags.empty.insert resultName (.ofNat 5)⟩
    let query (path : Path) := collect ⟨MemoryStore.social.toStore, { optimize := false }⟩ path none
      .never
    query (dani.push (.has (.values [.iri "follows"]) [] true)) = (.ok [row], .never) ∧
      query (dani.push (.has (.values [.iri "follows"]) [] false)) = (.ok [row, row], .never) := by
  intro dani row query
  have hm : MemoryStore.social.Addressable := ⟨by decide +kernel, by decide +kernel⟩
  have hcompile : dani.compile MemoryStore.social.toStore .first =
      .ofValues MemoryStore.social.toStore [.iri "dani"] := by
    simp [dani, Path.compile, Path.build, Path.buildOps]
  have hdani : query dani = (.ok [row], .never) :=
    collect_compiled hm hcompile (Plan.within_values hm _) (by decide +kernel)
  have hkept (reverse : Bool) : query (dani.push (.has (.values [.iri "follows"]) [] reverse)) =
      (.ok ([row].flatMap fun r => List.replicate
        (MemoryStore.social.links (.values [.iri "follows"]) [] reverse r.id) r), .never) := by
    obtain ⟨rows, kept, hrows, hkept, rfl, -⟩ := collect_has .social hm {} rfl dani trivial
      (by decide) (.values [.iri "follows"]) trivial [] reverse
    obtain rfl : [row] = rows := Except.ok.inj (congrArg Prod.fst (hdani.symm.trans hrows))
    exact hkept
  exact ⟨(hkept true).trans (congrArg (Except.ok ·, Token.never) (by decide +kernel)),
    (hkept false).trans (congrArg (Except.ok ·, Token.never) (by decide +kernel))⟩

def forked : MemoryStore :=
  ((MemoryStore.empty.addTriple (.str "x") (.str "a") (.str "y")).2.addTriple (.str "x") (.str "a")
    (.str "z")).2

/-- The subject of two quads, kept for having one, is collected twice. -/
theorem has_repeats_row :
    let subject : Path := .mk (.values [.str "x"]) []
    let row : ResultRow := ⟨.ofNat 0, Tags.empty.insert resultName (.ofNat 0)⟩
    let query (path : Path) := collect ⟨forked.toStore, { optimize := false }⟩ path none .never
    query subject = (.ok [row], .never) ∧
      query (subject.push (.has .all [] false)) = (.ok [row, row], .never) := by
  intro subject row query
  have hm : forked.Addressable := ⟨by decide +kernel, by decide +kernel⟩
  have hcompile : subject.compile forked.toStore .first = .ofValues forked.toStore [.str "x"] := by
    simp [subject, Path.compile, Path.build, Path.buildOps]
  have hpush : (subject.push (.has .all [] false)).compile forked.toStore .first =
      .and [.ofValues forked.toStore [.str "x"], .step .all .object .subject none [] none] 0 := by
    have hlabels : ¬subject.Labelled := by decide
    have hplain : Via.all.IsPlain := trivial
    rw [Path.compile_push_has hlabels forked .first hplain, hcompile]
    simp [Path.linked, Path.restriction]
  exact ⟨collect_compiled hm hcompile (Plan.within_values hm _) (by decide +kernel),
    collect_compiled hm hpush ⟨Plan.within_values hm _, ⟨trivial, trivial, trivial⟩, trivial⟩
      (by decide +kernel)⟩

end Session

end GraphQuery
