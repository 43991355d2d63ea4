import GraphQuery.Proofs.Bindings
import GraphQuery.Proofs.Closure.Level
import GraphQuery.Proofs.Meaning

/-!
# The names that feeds bind

Of some names it is accepted that they are bound. A feed binds nothing else if no binding set in it
does, however often one turns. Every operation on feeds keeps this: binding sets are only ever
passed on, combined, and given the names that the operation itself holds.
-/

namespace GraphQuery

variable {ok : String → Prop}

namespace Tags

variable {t u : Tags} {names : List String} {sets : List (List Tags)}

def Binds (ok : String → Prop) (t : Tags) : Prop :=
  ∀ name h, t.get? name = some h → ok name

theorem binds_empty : empty.Binds ok :=
  every_empty

theorem Binds.override (ht : t.Binds ok) (hu : u.Binds ok) : (t.override u).Binds ok :=
  Every.override ht hu

theorem Binds.insertAll (ht : t.Binds ok) (hnames : ∀ n ∈ names, ok n) (h : Handle) :
    (t.insertAll names h).Binds ok :=
  Every.insertAll ht hnames

/-- A name that is not accepted has no effect from the right. -/
theorem Binds.get?_override (hu : u.Binds ok) {name : String} (hn : ¬ ok name) (t : Tags) :
    (t.override u).get? name = t.get? name := by
  rw [Tags.get?_override]
  cases h : u.get? name with
  | none => rfl
  | some x => exact (hn (hu name x h)).elim

def AllBind (ok : String → Prop) (sets : List (List Tags)) : Prop :=
  ∀ xs ∈ sets, ∀ t ∈ xs, t.Binds ok

theorem allBind_cons {xs : List Tags} :
    AllBind ok (xs :: sets) ↔ (∀ t ∈ xs, t.Binds ok) ∧ AllBind ok sets :=
  List.forall_mem_cons

theorem AllBind.append {sets' : List (List Tags)} (h : AllBind ok sets) (h' : AllBind ok sets') :
    AllBind ok (sets ++ sets') :=
  EveryIn.append h h'

theorem AllBind.product (h : AllBind ok sets) : ∀ t ∈ product sets, t.Binds ok :=
  EveryIn.product h

end Tags

theorem Combinations.binds_all {sets : List (List Tags)} (h : Tags.AllBind ok sets) :
    ∀ t ∈ all sets, t.Binds ok :=
  every_all h

/-! ## Feeds and replies -/

def Feed.Binds (ok : String → Prop) : Feed → Prop
  | .done => True
  | .failed _ => True
  | .row _ sets rest => (∀ t ∈ sets, t.Binds ok) ∧ ∀ k, (rest k).Binds ok

def RepliesBind (ok : String → Prop) (reply : Handle → Reply) : Prop :=
  ∀ h, ∀ t ∈ (reply h).sets, t.Binds ok

def RowsBind (ok : String → Prop) (rows : List Row) : Prop :=
  ∀ r ∈ rows, ∀ t ∈ r.sets, t.Binds ok

theorem RowsBind.reply {rows : List Row} (hr : RowsBind ok rows) (error : Option QueryError) :
    RepliesBind ok (Delivered.reply ⟨rows, error⟩) := by
  intro h t ht
  cases error with
  | some e => simp [Delivered.reply, Reply.failure] at ht
  | none =>
      obtain ⟨r, hm, ht⟩ := List.mem_flatMap.1 ht
      exact hr r (List.mem_filter.1 hm).1 t ht

namespace Feed

variable {F G : Feed}

theorem binds_ofRows {rows : List Row} (hr : RowsBind ok rows) : (ofRows rows).Binds ok := by
  induction rows with
  | nil => trivial
  | cons r rows ih =>
      obtain ⟨hhead, hrest⟩ := List.forall_mem_cons.1 hr
      exact ⟨hhead, fun _ => ih hrest⟩

theorem Binds.drain (hF : F.Binds ok) (vet : Handle → Option QueryError) :
    RowsBind ok (F.drain vet).rows := by
  induction F with
  | done => simp [RowsBind, Feed.drain]
  | failed e => simp [RowsBind, Feed.drain]
  | row h sets rest ih =>
      unfold Feed.drain
      cases vet h with
      | some e => simp [RowsBind]
      | none => exact List.forall_mem_cons.2 ⟨hF.1, ih _ (hF.2 _)⟩

theorem Binds.delivered (hF : F.Binds ok) : RowsBind ok F.delivered.rows :=
  hF.drain _

theorem Binds.sift {α μ : Type} {verdicts : Verdicts α μ}
    (build : α → Handle → List Tags → (Nat → Feed) → Feed)
    (hb : ∀ {a h sets rest}, (∀ t ∈ sets, Tags.Binds ok t) → (∀ k, Binds ok (rest k)) →
      (build a h sets rest).Binds ok) (hF : F.Binds ok) (m : μ) :
    (F.sift verdicts build m).Binds ok := by
  induction F generalizing m with
  | done => trivial
  | failed e => trivial
  | row h sets rest ih =>
      obtain ⟨hsets, hrest⟩ := hF
      unfold Feed.sift
      cases (verdicts h m).1 with
      | found a => exact hb hsets fun k => ih k (hrest k) _
      | nothing => exact ih 0 (hrest 0) _
      | failed e => trivial

theorem Binds.sieve {μ : Type} {verdicts : Verdicts Unit μ} (hF : F.Binds ok) (m : μ) :
    (F.sieve verdicts m).Binds ok :=
  hF.sift (fun _ => .row) (fun hsets hrest => ⟨hsets, hrest⟩) m

theorem Binds.mapSets {g : Handle → Tags → Tags}
    (hg : ∀ h (t : Tags), t.Binds ok → (g h t).Binds ok) (hF : F.Binds ok) :
    (F.mapSets g).Binds ok := by
  induction F with
  | done => trivial
  | failed e => trivial
  | row h sets rest ih =>
      refine ⟨fun t ht => ?_, fun k => ih k (hF.2 k)⟩
      obtain ⟨u, hu, rfl⟩ := List.mem_map.1 ht
      exact hg h u (hF.1 u hu)

theorem Binds.limit (hF : F.Binds ok) (n count : Nat) : (F.limit n count).Binds ok := by
  induction F generalizing count with
  | done => trivial
  | failed e =>
      unfold Feed.limit
      split <;> trivial
  | row h sets rest ih =>
      unfold Feed.limit
      split
      · refine ⟨fun t ht => hF.1 t ?_, fun k => ih k (hF.2 k) _⟩
        unfold visible at ht
        split at ht
        · exact ht
        · exact List.mem_of_mem_take ht
      · trivial

theorem Binds.skip (hF : F.Binds ok) (n : Nat) : (F.skip n).Binds ok := by
  induction n generalizing F with
  | zero => exact hF
  | succ n ih =>
      cases F with
      | done => trivial
      | failed e => trivial
      | row h sets rest => exact ih (hF.2 0)

theorem Binds.append (hF : F.Binds ok) (hG : G.Binds ok) : (F.append G).Binds ok := by
  induction F with
  | done => exact hG
  | failed e => trivial
  | row h sets rest ih => exact ⟨hF.1, fun k => ih k (hF.2 k)⟩

theorem binds_concat {Fs : List Feed} (hF : ∀ F ∈ Fs, F.Binds ok) : (concat Fs).Binds ok := by
  induction Fs with
  | nil => trivial
  | cons F Fs ih =>
      obtain ⟨hhead, hrest⟩ := List.forall_mem_cons.1 hF
      exact hhead.append (ih hrest)

theorem Binds.sorted (hF : F.Binds ok) (store : QuadStore) : (F.sorted store).Binds ok := by
  unfold Feed.sorted
  split
  · trivial
  · refine binds_ofRows fun r hr => ?_
    exact hF.drain _ r ((List.mergeSort_perm _ _).mem_iff.1 hr)

end Feed

theorem RepliesBind.sieve {verdict : Handle → Answer Unit} {reply : Handle → Reply}
    (hr : RepliesBind ok reply) : RepliesBind ok (Reply.sieve verdict reply) := by
  intro h t ht
  unfold Reply.sieve at ht
  split at ht
  · exact hr h t ht
  · simp [Reply.absent] at ht
  · simp [Reply.failure] at ht

theorem RepliesBind.concat {replies : List (Handle → Reply)}
    (hr : ∀ reply ∈ replies, RepliesBind ok reply) : RepliesBind ok (Reply.concat replies) := by
  intro h
  induction replies with
  | nil => simp [Reply.concat, Reply.absent]
  | cons reply replies ih =>
      obtain ⟨hhead, hrest⟩ := List.forall_mem_cons.1 hr
      intro t ht
      have hconcat : Reply.concat (reply :: replies) h =
          (reply h).append (Reply.concat replies h) := rfl
      rw [hconcat, Reply.append] at ht
      split at ht
      · exact hhead h t ht
      · exact (List.mem_append.1 ht).elim (hhead h t) (ih hrest t)

/-! ## Joins -/

theorem allBind_gathered {h : Handle} {replies : List (Handle → Reply)}
    (hr : ∀ reply ∈ replies, RepliesBind ok reply) {sets : List (List Tags)}
    (hg : gathered h replies = .found sets) : Tags.AllBind ok sets := by
  induction replies generalizing sets with
  | nil =>
      obtain rfl : [] = sets := by simpa [gathered] using hg
      simp [Tags.AllBind]
  | cons reply replies ih =>
      obtain ⟨hhead, hrest⟩ := List.forall_mem_cons.1 hr
      unfold gathered at hg
      split at hg
      · simp at hg
      · cases hlater : gathered h replies with
        | nothing => simp [hlater, Answer.map] at hg
        | failed e => simp [hlater, Answer.map] at hg
        | found others =>
            obtain rfl : (reply h).sets :: others = sets := by simpa [hlater, Answer.map] using hg
            exact Tags.allBind_cons.2 ⟨hhead h, ih hrest hlater⟩

theorem Feed.Binds.join {F : Feed} {replies : List (Handle → Reply)} (hF : F.Binds ok)
    (hr : ∀ reply ∈ replies, RepliesBind ok reply) (position : Nat) :
    (F.join replies position).Binds ok := by
  refine hF.sift _ (fun {a h sets rest} hsets hrest => ?_) ()
  unfold joinedRow
  cases hg : gathered h replies with
  | nothing => trivial
  | failed e => trivial
  | found others =>
      refine ⟨Combinations.binds_all fun xs hxs => ?_, fun _ => hrest _⟩
      rcases List.eq_or_mem_of_mem_insertIdx hxs with rfl | hxs
      · exact hsets
      · exact allBind_gathered hr hg xs hxs

theorem RepliesBind.join {replies : List (Handle → Reply)}
    (hr : ∀ reply ∈ replies, RepliesBind ok reply) (first : Nat) :
    RepliesBind ok (Reply.join replies first) := by
  intro h t ht
  unfold Reply.join at ht
  split at ht
  · simp [Reply.absent] at ht
  · simp [Reply.failure] at ht
  · split at ht
    · exact Combinations.binds_all (allBind_gathered hr ‹_›) t ht
    · simp [Reply.absent] at ht
    · simp [Reply.failure] at ht

/-! ## Steps -/

structure QuadReplies.Bind (ok : String → Prop) (D : QuadReplies) : Prop where
  via : ∀ reply ∈ D.via, RepliesBind ok reply
  names : ∀ n ∈ D.names, ok n
  labels : ∀ reply ∈ D.labels, RepliesBind ok reply

theorem Reply.sets_of_complete {r : Reply} {sets : List Tags} (hr : r.complete = .found sets) :
    r.sets = sets := by
  obtain ⟨own, error⟩ := r
  cases error with
  | some e => simp [Reply.complete] at hr
  | none => cases own <;> simp_all [Reply.complete]

theorem Answer.exists_of_map_eq_found {α β : Type} {a : Answer α} {f : α → β} {b : β}
    (h : a.map f = .found b) : ∃ x, a = .found x ∧ f x = b := by
  cases a <;> simp_all [Answer.map]

theorem allBind_demanded {reply : Option (Handle → Reply)} (hr : ∀ r ∈ reply, RepliesBind ok r)
    {h : Handle} {sets : List (List Tags)} (hd : demanded reply h = .found sets) :
    Tags.AllBind ok sets := by
  cases reply with
  | none =>
      obtain rfl : [] = sets := by simpa [demanded] using hd
      simp [Tags.AllBind]
  | some r =>
      obtain ⟨own, hown, rfl⟩ := Answer.exists_of_map_eq_found hd
      have hbinds := hr r rfl h
      rw [Reply.sets_of_complete hown] at hbinds
      simpa [Tags.AllBind] using hbinds

theorem QuadReplies.Bind.bindings {D : QuadReplies} (hD : D.Bind ok) {quad : Quad}
    {sets : List (List Tags)} (hb : D.bindings quad = .found sets) : Tags.AllBind ok sets := by
  unfold QuadReplies.bindings at hb
  split at hb
  · simp at hb
  · simp at hb
  · rename_i via hvia
    obtain ⟨labels, hlabels, rfl⟩ := Answer.exists_of_map_eq_found hb
    refine ((allBind_demanded hD.via hvia).append ?_).append ?_
    · unfold QuadReplies.named
      split
      · simp [Tags.AllBind]
      · have hnamed : (Tags.ofNames D.names quad.predicate).Binds ok :=
          Tags.binds_empty.insertAll hD.names _
        simpa [Tags.AllBind] using hnamed
    · unfold QuadReplies.labelBindings at hlabels
      split at hlabels
      · exact allBind_demanded hD.labels hlabels
      · simp at hlabels
      · obtain rfl : [] = labels := by simpa using hlabels
        simp [Tags.AllBind]

namespace Trail

variable {T : Trail} {D : QuadReplies}

theorem allBind_reached (hD : D.Bind ok) {id : QuadId} {h : Handle} {sets : List (List Tags)}
    (hr : T.reached D id = .found (h, sets)) : Tags.AllBind ok sets := by
  unfold Trail.reached at hr
  split at hr
  · simp at hr
  · split at hr
    · simp at hr
    · obtain ⟨found, hfound, heq⟩ := Answer.exists_of_map_eq_found hr
      obtain rfl : found = sets := (Prod.mk.inj heq).2
      exact hD.bindings hfound

theorem binds_retraced (hD : D.Bind ok) {reply : Handle → Reply} (hr : RepliesBind ok reply)
    {quads : List QuadId} {sets : List Tags} (hs : T.retraced D reply quads = .found sets) :
    ∀ t ∈ sets, t.Binds ok := by
  induction quads generalizing sets with
  | nil =>
      obtain rfl : [] = sets := by simpa [Trail.retraced] using hs
      simp
  | cons id quads ih =>
      unfold Trail.retraced at hs
      split at hs
      · exact ih hs
      · split at hs
        · simp at hs
        · exact ih hs
        · rename_i came hcame
          obtain ⟨later, hlater, rfl⟩ := Answer.exists_of_map_eq_found hs
          refine List.forall_mem_append.2 ⟨?_, ih hlater⟩
          unfold Trail.cameFrom at hcame
          split at hcame
          · simp at hcame
          · simp at hcame
          · rename_i found hfound
            obtain ⟨own, hown, rfl⟩ := Answer.exists_of_map_eq_found hcame
            refine Combinations.binds_all (Tags.allBind_cons.2 ⟨?_, hD.bindings hfound⟩)
            exact Reply.sets_of_complete hown ▸ hr _

end Trail

theorem Feed.binds_walk {reached : QuadId → Answer (Handle × List (List Tags))}
    (hr : ∀ {id h sets}, reached id = .found (h, sets) → Tags.AllBind ok sets) {own : List Tags}
    (hown : ∀ t ∈ own, t.Binds ok) {next : Feed} (hn : next.Binds ok) (quads : List QuadId) :
    (walk reached own quads next).Binds ok := by
  induction quads with
  | nil => exact hn
  | cons id quads ih =>
      unfold Feed.walk
      cases ha : reached id with
      | found r => exact ⟨Combinations.binds_all (Tags.allBind_cons.2 ⟨hown, hr ha⟩), fun _ => ih⟩
      | nothing => exact ih
      | failed e => trivial

theorem Feed.Binds.step {F : Feed} {T : Trail} {D : QuadReplies} (hD : D.Bind ok)
    (hF : F.Binds ok) : (F.step T D).Binds ok := by
  induction F with
  | done => trivial
  | failed e => trivial
  | row h sets rest ih =>
      exact binds_walk (Trail.allBind_reached hD) hF.1 (ih _ (hF.2 _)) _

theorem RepliesBind.step {reply : Handle → Reply} {T : Trail} {D : QuadReplies} (hD : D.Bind ok)
    (hr : RepliesBind ok reply) : RepliesBind ok (Reply.step T D reply) := by
  intro h t ht
  unfold Reply.step at ht
  split at ht
  · exact Trail.binds_retraced hD hr ‹_› t ht
  · simp [Reply.absent] at ht
  · simp [Reply.failure] at ht

/-! ## Closures -/

def ReachedBind (ok : String → Prop) (reached : Reached) : Prop :=
  ∀ p ∈ reached, p.2.Binds ok

namespace Feed

variable {bindings : ClosureBindings} {maxDepth : Nat} {tagsAt : Nat → Tags → Tags}
  {expand : Reached → Delivered}

theorem binds_queued {tagsAt : Tags → Tags} (htags : ∀ t : Tags, t.Binds ok → (tagsAt t).Binds ok)
    {next : Feed} (hn : next.Binds ok) {queue : Reached} (hq : ReachedBind ok queue) :
    (queued tagsAt queue next).Binds ok := by
  induction queue with
  | nil => exact hn
  | cons p queue ih =>
      obtain ⟨hp, hrest⟩ := List.forall_mem_cons.1 hq
      exact ⟨by simpa using htags p.2 hp, fun _ => ih hrest⟩

/-- What the levels show has inherited the binding sets of the seeds, whatever the levels
themselves bind. -/
theorem binds_levels (htags : ∀ k (t : Tags), t.Binds ok → (tagsAt k t).Binds ok)
    (seen frontier : Reached) (depth : Nat) (hf : ReachedBind ok frontier) :
    (levels bindings maxDepth tagsAt expand seen frontier depth).Binds ok := by
  induction seen, frontier, depth using levels.induct bindings maxDepth expand with
  | case1 seen frontier depth hopen e herr =>
      rw [levels, dif_pos hopen, herr]
      trivial
  | case2 seen frontier depth hopen hnone l hshown =>
      rw [levels, dif_pos hopen, hnone]
      simp only
      rw [if_pos hshown]
      trivial
  | case3 seen frontier depth hopen hnone l hshown ih =>
      have hl := Level.made_ofRows bindings seen frontier (expand frontier).rows
      have hinherited : ReachedBind ok l.shown := fun p hp => by
        obtain ⟨-, q, hq, heq⟩ := Level.origin_of_mem_shown hp
        exact heq ▸ hf q hq
      rw [levels, dif_pos hopen, hnone]
      simp only
      rw [if_neg hshown]
      refine binds_queued (htags _) (ih fun p hp => ?_) hinherited
      exact hinherited p (hl.mem_fresh.1 hp).1
  | case4 seen frontier depth hclosed =>
      rw [levels, dif_neg hclosed]
      trivial

theorem Binds.closure {F : Feed} (htags : ∀ k (t : Tags), t.Binds ok → (tagsAt k t).Binds ok)
    (hF : F.Binds ok) : (F.closure bindings maxDepth tagsAt expand).Binds ok := by
  unfold Feed.closure
  split
  · trivial
  · refine binds_levels htags _ _ _ fun p hp => ?_
    obtain ⟨r, hr, -, ht⟩ := Reached.mem_ofRows.1 hp
    exact hF.delivered r hr p.2 ht

end Feed

theorem Closure.binds_tagsAt (store : QuadStore) {names : List String} (hn : ∀ n ∈ names, ok n)
    (depth : Nat) {t : Tags} (ht : t.Binds ok) : (Closure.tagsAt store names depth t).Binds ok := by
  unfold Closure.tagsAt
  split
  · exact ht
  · split
    · exact ht
    · exact ht.insertAll hn _

end GraphQuery
