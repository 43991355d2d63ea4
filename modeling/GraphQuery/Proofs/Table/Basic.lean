import GraphQuery.Proofs.Safety.Plan
import GraphQuery.Proofs.Tags

/-!
# Tables

Where nothing fails and it does not matter how often one turns at a result, a plan shows a table:
rows to scan, and the binding sets with which a probe finds each handle. Every operator acts on
tables, and the meaning of the table it makes is what it makes of the meanings.
-/

namespace GraphQuery

/-- Rows to scan and binding sets to look up. -/
structure Table where
  rows : List Row
  sets : Handle → List Tags

namespace Table

def meaning (T : Table) : Meaning :=
  ⟨.ofRows T.rows, fun h => .ofSets (T.sets h)⟩

def recorded (rows : List Row) : Table :=
  ⟨rows, fun h => bindingsOf h rows⟩

end Table

def boundRows (rows : List Row) : List Row :=
  rows.filter fun r => !r.sets.isEmpty

theorem boundRows_cons (r : Row) (rows : List Row) :
    boundRows (r :: rows) = if r.sets = [] then boundRows rows else r :: boundRows rows := by
  by_cases hr : r.sets = []
  · rw [boundRows, List.filter_cons_of_neg (by simp [hr]), if_pos hr]
    rfl
  · rw [boundRows, List.filter_cons_of_pos (by simpa using hr), if_neg hr]
    rfl

theorem boundRows_append (rows rows' : List Row) :
    boundRows (rows ++ rows') = boundRows rows ++ boundRows rows' :=
  List.filter_append ..

/-! ## Drains -/

namespace Feed

variable {rows : List Row}

theorem drain_ofRows {vet : Handle → Option QueryError} (hv : ∀ r ∈ rows, vet r.handle = none) :
    (ofRows rows).drain vet = ⟨rows, none⟩ := by
  induction rows with
  | nil => rfl
  | cons r rows ih =>
      have hrest := ih fun q hq => hv q (List.mem_cons_of_mem _ hq)
      simp only [ofRows, Feed.drain, hv r (List.mem_cons_self ..), hrest]

@[simp] theorem delivered_ofRows (rows : List Row) : (ofRows rows).delivered = ⟨rows, none⟩ :=
  drain_ofRows fun _ _ => rfl

theorem safeRows_of_safe {ok : Handle → Prop} (h : (ofRows rows).Safe ok) : SafeRows ok rows := by
  have := h.delivered.2
  rwa [delivered_ofRows] at this

end Feed

namespace Table

/-- What is recorded of a feed that is a list of rows. -/
theorem ofFeed_eq (rows : List Row) : Meaning.ofFeed (.ofRows rows) = (recorded rows).meaning := by
  unfold Meaning.ofFeed meaning recorded
  rw [Feed.delivered_ofRows]
  rfl

/-! ## Leaves and names -/

def leaf (handles : List Handle) (mem : Handle → Bool) : Table :=
  ⟨handles.map .bare, fun h => if mem h then [.empty] else []⟩

theorem leaf_eq (handles : List Handle) (mem : Handle → Bool) :
    Meaning.leaf handles mem = (leaf handles mem).meaning := by
  unfold Meaning.leaf leaf meaning
  congr 1
  funext h
  unfold Reply.ofMem
  by_cases hm : mem h = true
  · simp [hm]
  · simp [hm, Reply.absent, Reply.ofSets]

def naming (T : Table) (names : List String) : Table :=
  ⟨T.rows.map fun r => ⟨r.handle, r.sets.map fun u => u.insertAll names r.handle⟩,
    fun h => (T.sets h).map fun u => u.insertAll names h⟩

theorem mapSets_ofRows (g : Handle → Tags → Tags) (rows : List Row) :
    (Feed.ofRows rows).mapSets g =
      .ofRows (rows.map fun r => ⟨r.handle, r.sets.map (g r.handle)⟩) := by
  induction rows with
  | nil => rfl
  | cons r rows ih => simp only [Feed.ofRows, Feed.mapSets, ih, List.map_cons]

theorem naming_eq (T : Table) (names : List String) :
    T.meaning.naming names = (T.naming names).meaning := by
  unfold Meaning.naming naming meaning
  rw [mapSets_ofRows]
  rfl

/-! ## Sieves -/

def filter (T : Table) (keep : Handle → Bool) : Table :=
  ⟨T.rows.filter fun r => keep r.handle, fun h => if keep h then T.sets h else []⟩

def verdict (keep : Handle → Bool) (h : Handle) : Answer Unit :=
  if keep h then .found () else .nothing

theorem sieve_ofRows {onResult : Handle → Answer Unit} {keep : Handle → Bool} {rows : List Row}
    (hr : ∀ r ∈ rows, onResult r.handle = verdict keep r.handle) :
    (Feed.ofRows rows).sieve (.plain onResult) () =
      .ofRows (rows.filter fun r => keep r.handle) := by
  induction rows with
  | nil => rfl
  | cons r rows ih =>
      have hrest := ih fun q hq => hr q (List.mem_cons_of_mem _ hq)
      simp only [Feed.sieve] at hrest
      simp only [Feed.ofRows, Feed.sieve, Feed.sift, hr r (List.mem_cons_self ..), verdict]
      by_cases hk : keep r.handle = true
      · simp [hk, hrest, Feed.ofRows]
      · simp [hk, hrest]

theorem sieve_eq {T : Table} {onResult onCandidate : Handle → Answer Unit} {keep : Handle → Bool}
    (hr : ∀ r ∈ T.rows, onResult r.handle = verdict keep r.handle)
    (hc : ∀ h, onCandidate h = verdict keep h) :
    T.meaning.sieve onResult onCandidate = (T.filter keep).meaning := by
  unfold Meaning.sieve filter meaning
  rw [sieve_ofRows hr]
  congr 1
  funext h
  simp only [Reply.sieve, hc h, verdict]
  by_cases hk : keep h = true
  · simp [hk]
  · simp [hk, Reply.absent, Reply.ofSets]

def accepts (store : QuadStore) (test : ValueTest) (h : Handle) : Bool :=
  (store.resolve h).any fun v => match test v with
    | .ok b => b
    | .error _ => false

theorem verdictOn_eq {store : QuadStore} {test : ValueTest} (ht : store.Total test)
    {unknown : Handle → Answer Unit} {h : Handle}
    (hu : store.resolve h = none → unknown h = .nothing) :
    verdictOn store test unknown h = verdict (accepts store test) h := by
  unfold verdictOn verdict accepts
  cases hr : store.resolve h with
  | none => exact hu hr
  | some v =>
      obtain ⟨b, hb⟩ := ht h v hr
      simp only [hb, Option.any_some]
      cases b <;> rfl

def lacks (T : Table) (h : Handle) : Bool :=
  (T.sets h).isEmpty

theorem forbid_eq (T : Table) (h : Handle) :
    (T.meaning.reply h).forbid = verdict T.lacks h := by
  have key : ∀ sets : List Tags, (Reply.ofSets sets).forbid =
      if sets.isEmpty then .found () else .nothing := by
    intro sets
    cases sets <;> rfl
  exact key (T.sets h)

/-! ## First rows, pages and sorted rows -/

def firstRows : List Row → List Handle → List Row
  | [], _ => []
  | r :: rows, seen =>
      if seen.contains r.handle then firstRows rows seen
      else r :: firstRows rows (r.handle :: seen)

theorem firsts_ofRows (rows : List Row) :
    (Feed.ofRows rows).firsts = .ofRows (firstRows rows []) := by
  suffices key : ∀ seen, (Feed.ofRows rows).sieve .firsts seen = .ofRows (firstRows rows seen) from
    key []
  induction rows with
  | nil => exact fun _ => rfl
  | cons r rows ih =>
      intro seen
      have hrest : ∀ seen, (Feed.ofRows rows).sift .firsts (fun _ => .row) seen =
          .ofRows (firstRows rows seen) := ih
      by_cases hs : seen.contains r.handle = true
      · simp only [Feed.ofRows, Feed.sieve, Feed.sift, Verdicts.firsts, firstRows, hs, if_true,
          hrest]
      · simp only [Feed.ofRows, Feed.sieve, Feed.sift, Verdicts.firsts, firstRows, hs,
          Bool.false_eq_true, if_false, hrest]

theorem mem_of_mem_firstRows {rows : List Row} {seen : List Handle} {r : Row}
    (hr : r ∈ firstRows rows seen) : r ∈ rows := by
  induction rows generalizing seen with
  | nil => simp [firstRows] at hr
  | cons q rows ih =>
      unfold firstRows at hr
      split at hr
      · exact List.mem_cons_of_mem _ (ih hr)
      · exact (List.mem_cons.1 hr).elim (· ▸ List.mem_cons_self ..)
          fun hr => List.mem_cons_of_mem _ (ih hr)

theorem exists_mem_firstRows {rows : List Row} {seen : List Handle} {r : Row} (hr : r ∈ rows)
    (hseen : r.handle ∉ seen) : ∃ q ∈ firstRows rows seen, q.handle = r.handle := by
  induction rows generalizing seen with
  | nil => simp at hr
  | cons q rows ih =>
      unfold firstRows
      by_cases hq : seen.contains q.handle = true
      · rw [if_pos hq]
        have hne : r ≠ q := by
          rintro rfl
          exact hseen (by simpa using hq)
        exact ih ((List.mem_cons.1 hr).resolve_left hne) hseen
      · rw [if_neg hq]
        by_cases heq : r.handle = q.handle
        · exact ⟨q, List.mem_cons_self .., heq.symm⟩
        · have hne : r ≠ q := fun h => heq (congrArg Row.handle h)
          have hseen : r.handle ∉ q.handle :: seen := by simp [heq, hseen]
          obtain ⟨p, hp, hpr⟩ := ih ((List.mem_cons.1 hr).resolve_left hne) hseen
          exact ⟨p, List.mem_cons_of_mem _ hp, hpr⟩

theorem skip_ofRows (n : Nat) (rows : List Row) :
    (Feed.ofRows rows).skip n = .ofRows (rows.drop n) := by
  induction n generalizing rows with
  | zero => rfl
  | succ n ih =>
      cases rows with
      | nil => rfl
      | cons r rows => exact ih rows

/-- All rows but the first so many. If there are none to leave out, probes are not read off the
rows. -/
def skip (T : Table) (n : Nat) : Table :=
  if n = 0 then T else recorded (T.rows.drop n)

theorem skip_rows (T : Table) (n : Nat) : (T.skip n).rows = T.rows.drop n := by
  unfold skip
  split
  · rename_i hn
    rw [hn, List.drop_zero]
  · rfl

theorem skip_eq (T : Table) (n : Nat) :
    T.meaning.paged n (T.meaning.feed.skip n) = (T.skip n).meaning := by
  unfold Meaning.paged skip
  by_cases hn : n = 0
  · subst hn
    rfl
  · rw [if_neg hn, if_neg hn, ← ofFeed_eq, ← skip_ofRows]
    rfl

/-- The rows up to the first so many binding sets. If there is no bound, probes are not read off the
rows. -/
def limit (T : Table) (n : Nat) : Table :=
  if n = 0 then T else recorded (cut n T.rows)

theorem limit_eq {T : Table} {n : Nat} (hne : ∀ r ∈ T.rows, r.sets ≠ []) (hs : SteadyAt n T.rows) :
    T.meaning.paged n (T.meaning.feed.limit n 0) = (T.limit n).meaning := by
  unfold Meaning.paged limit
  by_cases hn : n = 0
  · subst hn
    rw [Feed.limit_zero]
    rfl
  · have hfeed : T.meaning.feed.limit n 0 = .ofRows (cut n T.rows) := Feed.limit_ofRows hn hne hs
    rw [if_neg hn, if_neg hn, ← ofFeed_eq, hfeed]
    rfl

def sorted (T : Table) (store : QuadStore) : Table :=
  ⟨T.rows.mergeSort store.notAfter, T.sets⟩

theorem sorted_eq {T : Table} {store : QuadStore} (hv : ∀ r ∈ T.rows, store.vet r.handle = none) :
    T.meaning.sorted store = (T.sorted store).meaning := by
  unfold Meaning.sorted Feed.sorted sorted meaning
  rw [Feed.drain_ofRows hv]

/-! ## Images -/

def imageRows (store : QuadStore) (f : ValueMap) (rows : List Row) : List Row :=
  rows.filterMap fun r => match imageOf store f r.handle with
    | .found image => some ⟨image, r.sets⟩
    | _ => none

theorem mapped_ofRows {store : QuadStore} {f : ValueMap} {rows : List Row}
    (hf : ∀ r ∈ rows, ∀ e, imageOf store f r.handle ≠ .failed e) :
    (Feed.ofRows rows).mapped store f = .ofRows (imageRows store f rows) := by
  induction rows with
  | nil => rfl
  | cons r rows ih =>
      have hrest := ih fun q hq => hf q (List.mem_cons_of_mem _ hq)
      simp only [Feed.mapped, imageRows] at hrest
      simp only [Feed.ofRows, Feed.mapped, Feed.sift, imageRows, List.filterMap_cons]
      cases hi : imageOf store f r.handle with
      | found image => simp only [hrest, Feed.ofRows]
      | nothing => simp only [hrest]
      | failed e => exact (hf r (List.mem_cons_self ..) e hi).elim

/-! ## Unions -/

def concat (Ts : List Table) : Table :=
  ⟨Ts.flatMap rows, fun h => Ts.flatMap fun T => T.sets h⟩

theorem append_ofRows (rows rows' : List Row) :
    (Feed.ofRows rows).append (.ofRows rows') = .ofRows (rows ++ rows') := by
  induction rows with
  | nil => rfl
  | cons r rows ih => simp only [Feed.ofRows, Feed.append, ih, List.cons_append]

theorem concat_eq (Ts : List Table) : Meaning.union (Ts.map meaning) = (concat Ts).meaning := by
  induction Ts with
  | nil => rfl
  | cons T Ts ih =>
      simp only [Meaning.union, meaning, concat, Meaning.mk.injEq] at ih ⊢
      refine ⟨?_, funext fun h => ?_⟩
      · rw [List.flatMap_cons, ← append_ofRows, ← ih.1]
        rfl
      · rw [List.flatMap_cons, show Reply.ofSets (T.sets h ++ Ts.flatMap fun T => T.sets h) =
          (Reply.ofSets (T.sets h)).append (.ofSets (Ts.flatMap fun T => T.sets h)) from rfl,
          ← congrFun ih.2 h]
        rfl

end Table

end GraphQuery
