import GraphQuery.Proofs.Table.Basic
import Mathlib.Data.List.InsertIdx

/-!
# Joined and walked tables

The rows of a join and of a step come with products of binding sets. A product with nothing to
choose from in one place is empty, so one rule covers the rows that are rejected and those that are
shown.
-/

namespace GraphQuery

/-! ## Joins -/

namespace Table

def joinRow (others : List Table) (position : Nat) (r : Row) : Row :=
  ⟨r.handle, Tags.product ((others.map fun U => U.sets r.handle).insertIdx position r.sets)⟩

def join (Ts : List Table) (primary : Nat) : Table :=
  match Ts[primary]? with
  | none => leaf [] fun _ => false
  | some T =>
      ⟨boundRows (T.rows.map (joinRow (Ts.eraseIdx primary) primary)),
        fun h => Tags.product (Ts.map fun U => U.sets h)⟩

variable {Ts : List Table} {h : Handle}

theorem faultless_reply (T : Table) : Faultless T.meaning.reply :=
  fun _ => rfl

theorem faultless_replies (Ts : List Table) :
    ∀ reply ∈ Ts.map fun T => T.meaning.reply, Faultless reply := by
  intro reply hr
  obtain ⟨T, -, rfl⟩ := List.mem_map.1 hr
  exact T.faultless_reply

theorem gathered_replies (Ts : List Table) (h : Handle) :
    gathered h (Ts.map fun T => T.meaning.reply) = .found (Ts.map fun T => T.sets h) := by
  rw [gathered_eq (faultless_replies Ts), List.map_map]
  rfl

/-- Probes succeed as long as no table at the positions lacks the handle. -/
theorem consult_replies {order : List Nat} (ho : ∀ i ∈ order, i < Ts.length) :
    consult (Ts.map fun T => T.meaning.reply) h order =
      if ∃ i ∈ order, (Ts.map fun T => T.sets h)[i]? = some [] then .nothing else .found () := by
  induction order with
  | nil => simp [consult]
  | cons i order ih =>
      have hrest := ih fun j hj => ho j (List.mem_cons_of_mem _ hj)
      have hi : i < Ts.length := ho i (List.mem_cons_self ..)
      have hreply : replyAt (Ts.map fun T => T.meaning.reply) i h = .ofSets (Ts[i].sets h) := by
        simp only [replyAt, List.getElem?_map, List.getElem?_eq_getElem hi]
        rfl
      rw [consult, hreply]
      cases hs : Ts[i].sets h with
      | nil =>
          have : ∃ j ∈ i :: order, (Ts.map fun T => T.sets h)[j]? = some [] :=
            ⟨i, List.mem_cons_self .., by simp [hi, hs]⟩
          rw [if_pos this]
          rfl
      | cons t ts =>
          have : (∃ j ∈ i :: order, (Ts.map fun T => T.sets h)[j]? = some []) ↔
              ∃ j ∈ order, (Ts.map fun T => T.sets h)[j]? = some [] := by
            simp [hi, hs]
          simp only [this]
          exact hrest

theorem consult_all {order : List Nat} (ho : ∀ i, i ∈ order ↔ i < Ts.length) :
    consult (Ts.map fun T => T.meaning.reply) h order =
      if [] ∈ Ts.map fun T => T.sets h then .nothing else .found () := by
  have : (∃ i ∈ order, (Ts.map fun T => T.sets h)[i]? = some []) ↔
      [] ∈ Ts.map fun T => T.sets h := by
    rw [List.mem_iff_getElem?]
    constructor
    · intro ⟨i, _, hi⟩
      exact ⟨i, hi⟩
    · intro ⟨i, hi⟩
      obtain ⟨hlt, -⟩ := List.getElem?_eq_some_iff.1 hi
      exact ⟨i, (ho i).2 (by simpa using hlt), hi⟩
  rw [consult_replies fun i hi => (ho i).1 hi]
  simp only [this]

theorem join_ofRows {rows : List Row} (hne : ∀ r ∈ rows, r.sets ≠ []) (others : List Table)
    {position : Nat} (hp : position ≤ others.length) :
    (Feed.ofRows rows).join (others.map fun U => U.meaning.reply) position =
      .ofRows (boundRows (rows.map (joinRow others position))) := by
  induction rows with
  | nil => rfl
  | cons r rows ih =>
      have hrest := ih fun q hq => hne q (List.mem_cons_of_mem _ hq)
      have hr := hne r (List.mem_cons_self ..)
      simp only [Feed.join] at hrest
      have hmem : [] ∈ (others.map fun U => U.sets r.handle).insertIdx position r.sets ↔
          [] ∈ others.map fun U => U.sets r.handle := by
        rw [List.mem_insertIdx (by simpa using hp)]
        simp [Ne.symm hr]
      have horder : ∀ i, i ∈ List.range (others.map fun U => U.meaning.reply).length ↔
          i < others.length := by
        simp
      simp only [consult_all horder] at hrest
      simp only [Feed.ofRows, Feed.join, Feed.sift, consult_all horder, List.map_cons]
      by_cases he : [] ∈ others.map fun U => U.sets r.handle
      · have : (joinRow others position r).sets = [] := Tags.product_eq_nil_iff.2 (hmem.2 he)
        rw [if_pos he, boundRows_cons, if_pos this]
        exact hrest
      · have : (joinRow others position r).sets ≠ [] := fun h =>
          he (hmem.1 (Tags.product_eq_nil_iff.1 h))
        rw [if_neg he, boundRows_cons, if_neg this]
        simp only [joinedRow, gathered_replies, Feed.ofRows, hrest]
        rw [Combinations.all_eq_product fun h => he (hmem.1 h)]
        rfl

theorem join_eq {Ts : List Table} (hne : ∀ T ∈ Ts, ∀ r ∈ T.rows, r.sets ≠ []) (primary : Nat) :
    Meaning.join (Ts.map meaning) primary = (join Ts primary).meaning := by
  unfold Meaning.join join
  rw [List.getElem?_map]
  cases hT : Ts[primary]? with
  | none => exact leaf_eq [] fun _ => false
  | some T =>
      obtain ⟨hp, rfl⟩ := List.getElem?_eq_some_iff.1 hT
      have hothers : primary ≤ (Ts.eraseIdx primary).length := by
        rw [List.length_eraseIdx_of_lt hp]
        omega
      have hreplies : ((Ts.map meaning).eraseIdx primary).map Meaning.reply =
          (Ts.eraseIdx primary).map fun U => U.meaning.reply := by
        rw [List.eraseIdx_map, List.map_map]
        rfl
      have hall : (Ts.map meaning).map Meaning.reply = Ts.map fun U => U.meaning.reply := by
        rw [List.map_map]
        rfl
      simp only [Option.map_some, hreplies, hall, Meaning.mk.injEq, meaning]
      refine ⟨join_ofRows (hne _ (List.getElem_mem hp)) _ hothers, funext fun h => ?_⟩
      have horder : ∀ i, i ∈ probeOrder (Ts.map fun U => U.meaning.reply).length primary ↔
          i < Ts.length := by
        intro i
        rw [List.length_map, mem_probeOrder hp]
      have hconsult := consult_all (h := h) horder
      simp only [meaning] at hconsult
      unfold Reply.join
      rw [hconsult]
      by_cases he : [] ∈ Ts.map fun U => U.sets h
      · rw [if_pos he, Tags.product_eq_nil_iff.2 he]
        rfl
      · have hgathered := gathered_replies Ts h
        simp only [meaning] at hgathered
        rw [if_neg he]
        simp only [hgathered]
        rw [Combinations.all_eq_product he]

end Table

/-! ## Steps -/

def QuadStore.ending (store : QuadStore) (d : Direction) (id : QuadId) : Option (Quad × Handle) :=
  (store.quad id).bind fun quad => (quad.at d).map (quad, ·)

structure QuadSets where
  via : Option (Handle → List Tags)
  names : List String
  labels : Option (Handle → List Tags)

namespace QuadSets

def replies (D : QuadSets) : QuadReplies :=
  ⟨D.via.map fun sets h => .ofSets (sets h), D.names, D.labels.map fun sets h => .ofSets (sets h)⟩

def labelChoices (D : QuadSets) (label : Option Handle) : List (List Tags) :=
  match D.labels, label with
  | none, _ => []
  | some _, none => [[]]
  | some sets, some l => [sets l]

def choices (D : QuadSets) (quad : Quad) : List (List Tags) :=
  D.via.toList.map (fun sets => sets quad.predicate) ++ D.replies.named quad.predicate ++
    D.labelChoices quad.label

variable {D : QuadSets} {quad : Quad}

theorem complete_ofSets (sets : List Tags) :
    (Reply.ofSets sets).complete = if sets.isEmpty then .nothing else .found sets := by
  cases sets <;> rfl

theorem demanded_eq (sets : Option (Handle → List Tags)) (h : Handle) :
    demanded (sets.map fun s h => .ofSets (s h)) h =
      if [] ∈ sets.toList.map (fun s => s h) then .nothing
      else .found (sets.toList.map fun s => s h) := by
  cases sets with
  | none => simp [demanded]
  | some s =>
      simp only [Option.map_some, demanded, complete_ofSets, Option.toList_some, List.map_cons,
        List.map_nil, List.mem_singleton]
      cases s h <;> simp [Answer.map]

theorem labelBindings_eq (D : QuadSets) (label : Option Handle) :
    D.replies.labelBindings label =
      if [] ∈ D.labelChoices label then .nothing else .found (D.labelChoices label) := by
  obtain ⟨via, names, labels⟩ := D
  unfold QuadReplies.labelBindings labelChoices
  cases labels with
  | none => simp [replies]
  | some sets =>
      cases label with
      | none => simp [replies]
      | some l =>
          have := demanded_eq (some sets) l
          simpa [replies] using this

theorem nil_notMem_named (D : QuadReplies) (p : Handle) : [] ∉ D.named p := by
  unfold QuadReplies.named
  split <;> simp

theorem bindings_eq (D : QuadSets) (quad : Quad) :
    D.replies.bindings quad =
      if [] ∈ D.choices quad then .nothing else .found (D.choices quad) := by
  have hvia : demanded D.replies.via quad.predicate = _ := demanded_eq D.via quad.predicate
  have hnamed : [] ∉ D.replies.named quad.predicate := nil_notMem_named _ _
  unfold QuadReplies.bindings choices
  rw [hvia, labelBindings_eq]
  by_cases hv : [] ∈ D.via.toList.map fun s => s quad.predicate
  · have : [] ∈ D.via.toList.map (fun sets => sets quad.predicate) ++
        D.replies.named quad.predicate ++ D.labelChoices quad.label := by
      simp only [List.mem_append]
      exact .inl (.inl hv)
    rw [if_pos hv, if_pos this]
  · rw [if_neg hv]
    by_cases hl : [] ∈ D.labelChoices quad.label
    · simp [hl, Answer.map]
    · have : [] ∉ D.via.toList.map (fun sets => sets quad.predicate) ++
          D.replies.named quad.predicate ++ D.labelChoices quad.label := by
        simp only [List.mem_append, not_or]
        exact ⟨⟨hv, hnamed⟩, hl⟩
      rw [if_neg hl, if_neg this]
      rfl

end QuadSets

namespace Table

variable {T : Table} {W : Trail} {D : QuadSets}

def walkRows (W : Trail) (D : QuadSets) (own : List Tags) (id : QuadId) : List Row :=
  (W.store.ending W.toEnd id).toList.map fun p =>
    ⟨p.2, Tags.product (own :: D.choices p.1)⟩

def walkSets (W : Trail) (D : QuadSets) (sets : Handle → List Tags) (id : QuadId) : List Tags :=
  (W.store.ending W.fromEnd id).toList.flatMap fun p =>
    Tags.product (sets p.2 :: D.choices p.1)

def step (T : Table) (W : Trail) (D : QuadSets) : Table :=
  ⟨T.rows.flatMap fun r =>
      boundRows ((W.store.quadsWith W.fromEnd r.handle).flatMap (walkRows W D r.sets)),
    fun h => (W.store.quadsWith W.toEnd h).flatMap (walkSets W D T.sets)⟩

theorem reached_eq (W : Trail) (D : QuadSets) (id : QuadId) :
    W.reached D.replies id =
      match W.store.ending W.toEnd id with
      | none => .nothing
      | some (quad, target) =>
          if [] ∈ D.choices quad then .nothing else .found (target, D.choices quad) := by
  unfold Trail.reached QuadStore.ending
  cases W.store.quad id with
  | none => rfl
  | some quad =>
      dsimp only [Option.bind_some]
      cases quad.at W.toEnd with
      | none => rfl
      | some target =>
          simp only [QuadSets.bindings_eq, Option.map_some]
          split <;> rfl

theorem walk_ofRows {own : List Tags} (hown : own ≠ []) (rows : List Row) (quads : List QuadId) :
    Feed.walk (W.reached D.replies) own quads (.ofRows rows) =
      .ofRows (boundRows (quads.flatMap (walkRows W D own)) ++ rows) := by
  induction quads with
  | nil => rfl
  | cons id quads ih =>
      rw [Feed.walk, reached_eq, List.flatMap_cons, boundRows_append, walkRows]
      cases W.store.ending W.toEnd id with
      | none => simpa [boundRows] using ih
      | some p =>
          obtain ⟨quad, target⟩ := p
          dsimp only
          have hmem : [] ∈ own :: D.choices quad ↔ [] ∈ D.choices quad := by
            simp [Ne.symm hown]
          by_cases he : [] ∈ D.choices quad
          · have : Tags.product (own :: D.choices quad) = [] :=
              Tags.product_eq_nil_iff.2 (hmem.2 he)
            simpa [he, boundRows, this] using ih
          · have : Tags.product (own :: D.choices quad) ≠ [] := fun h =>
              he (hmem.1 (Tags.product_eq_nil_iff.1 h))
            have hbound : boundRows [⟨target, Tags.product (own :: D.choices quad)⟩] =
                [⟨target, Tags.product (own :: D.choices quad)⟩] := by
              simp [boundRows, this]
            rw [if_neg he, Option.toList_some, List.map_singleton, hbound]
            simp only [ih, List.cons_append, List.nil_append, Feed.ofRows]
            rw [Combinations.all_eq_product fun h => he (hmem.1 h)]

theorem step_ofRows {rows : List Row} (hne : ∀ r ∈ rows, r.sets ≠ []) :
    (Feed.ofRows rows).step W D.replies = .ofRows (rows.flatMap fun r =>
      boundRows ((W.store.quadsWith W.fromEnd r.handle).flatMap (walkRows W D r.sets))) := by
  induction rows with
  | nil => rfl
  | cons r rows ih =>
      have hrest := ih fun q hq => hne q (List.mem_cons_of_mem _ hq)
      rw [Feed.ofRows, Feed.step, hrest, walk_ofRows (hne r (List.mem_cons_self ..)),
        List.flatMap_cons]

theorem retraced_eq (T : Table) (W : Trail) (D : QuadSets) (quads : List QuadId) :
    W.retraced D.replies T.meaning.reply quads = .found (quads.flatMap (walkSets W D T.sets)) := by
  induction quads with
  | nil => rfl
  | cons id quads ih =>
      rw [Trail.retraced, List.flatMap_cons, walkSets, ih,
        show ((W.store.quad id).bind fun quad => (quad.at W.fromEnd).map (quad, ·)) =
          W.store.ending W.fromEnd id from rfl]
      cases W.store.ending W.fromEnd id with
      | none => rfl
      | some p =>
          obtain ⟨quad, source⟩ := p
          have hreply : T.meaning.reply source = .ofSets (T.sets source) := rfl
          simp only [Trail.cameFrom, QuadSets.bindings_eq, hreply, QuadSets.complete_ofSets,
            Option.toList_some, List.flatMap_singleton]
          by_cases he : [] ∈ D.choices quad
          · have : Tags.product (T.sets source :: D.choices quad) = [] :=
              Tags.product_eq_nil_iff.2 (List.mem_cons_of_mem _ he)
            simp [he, this]
          · cases hs : T.sets source with
            | nil => simp [he, Answer.map, Tags.product_cons]
            | cons t ts =>
                have : [] ∉ (t :: ts) :: D.choices quad := by
                  simp [he]
                simp [he, Answer.map, Combinations.all_eq_product this]

theorem step_eq (hne : ∀ r ∈ T.rows, r.sets ≠ []) (W : Trail) (D : QuadSets) :
    T.meaning.step W D.replies = (T.step W D).meaning := by
  unfold Meaning.step step
  rw [meaning, step_ofRows hne]
  congr 1
  funext h
  have := retraced_eq T W D (W.store.quadsWith W.toEnd h)
  simp only [meaning] at this
  rw [Reply.step, this]

end Table

end GraphQuery
