import GraphQuery.Cursor.Paging
import GraphQuery.Proofs.Feed.Basic

/-!
# What paged scanners show

A limit cuts the binding sets of a result short, and what comes after the result depends on how many
of them were turned to. Skipping drops results from the front of the feed.
-/

namespace GraphQuery

/-! ## Limits -/

/-- The binding sets that are left of a result once `count` rows have been shown before it. -/
def visible (n count : Nat) (sets : List Tags) : List Tags :=
  if n = 0 then sets else sets.take (n - count)

theorem visible_cons {n count : Nat} (hroom : n = 0 ∨ count < n) (t : Tags) (sets : List Tags) :
    visible n count (t :: sets) = t :: visible n (count + 1) sets := by
  unfold visible
  by_cases h0 : n = 0
  · simp only [h0, if_true]
  · obtain ⟨m, hm⟩ : ∃ m, n - count = m + 1 := ⟨n - count - 1, by omega⟩
    rw [if_neg h0, if_neg h0, hm, List.take_succ_cons]
    congr 2
    omega

theorem visible_full {n count : Nat} (hfull : ¬ (n = 0 ∨ count < n)) (sets : List Tags) :
    visible n count sets = [] := by
  unfold visible
  rw [if_neg (by omega), List.take_eq_nil_iff]
  omega

theorem visible_nil (n count : Nat) : visible n count [] = [] := by
  unfold visible
  split <;> simp

/-- What a limit of `n` lets through after `count` rows; no bound if `n` is zero. Every binding set
that was turned to counts. -/
def Feed.limit (n : Nat) : Feed → Nat → Feed
  | .done, _ => .done
  | .failed e, count => if n = 0 ∨ count < n then .failed e else .done
  | .row h sets rest, count =>
      if n = 0 ∨ count < n then
        .row h (visible n count sets) fun k => (rest k).limit n (count + min (k + 1) sets.length)
      else .done

theorem Feed.limit_zero (F : Feed) (count : Nat) : F.limit 0 count = F := by
  induction F generalizing count with
  | done => rfl
  | failed e => rfl
  | row h sets rest ih => simp [limit, visible, ih]

section Limit

variable {S : Scanner} {n : Nat}

theorem Cursor.Offers.limit {h : Handle} {after : Nat → S.State → Prop}
    {after' : Nat → (S.limit n).State → Prop} {sets : List Tags} {s : S.State} {count : Nat}
    (ho : S.Offers h none after sets s) (hroom : n = 0 ∨ count < n)
    (ha : ∀ k s, k < sets.length → after k s → after' k ⟨{}, ⟨s, count + 1 + k⟩⟩) :
    (S.limit n).Offers h none after' (visible n count sets) ⟨{}, ⟨s, count + 1⟩⟩ := by
  have stuck : ∀ {s : S.State} {count : Nat}, ¬ (n = 0 ∨ count + 1 < n) →
      (S.limit n).nextPath ⟨{}, ⟨s, count + 1⟩⟩ .never =
        ⟨.nothing, ⟨{}, ⟨s, count + 1⟩⟩, .never⟩ := by
    intro s count hc
    exact if_neg (by simpa [Scanner.limit] using hc)
  have turn : ∀ {s s' : S.State} {count : Nat} {a : Answer Unit}, n = 0 ∨ count + 1 < n →
      S.nextPath s .never = ⟨a, s', .never⟩ →
      (S.limit n).nextPath ⟨{}, ⟨s, count + 1⟩⟩ .never =
        ⟨a, ⟨⟨a.error?, false⟩, ⟨s', if a.isFound then count + 2 else count + 1⟩⟩, .never⟩ := by
    intro s s' count a hc hn
    refine Cursor.nextPath_never (by simpa [Scanner.limit] using hc) ?_
    simp only [Scanner.limit, hn]
    rfl
  induction sets generalizing s after after' count with
  | nil => exact ho.elim
  | cons t sets ih =>
      rw [visible_cons hroom]
      by_cases hc : n = 0 ∨ count + 1 < n
      · cases sets with
        | nil =>
            obtain ⟨hr, ht, ha', s', hn, hs'⟩ := ho
            rw [visible_nil]
            exact ⟨hr, ht, ha 0 s (by simp) ha', _, turn hc hn, ha 0 s' (by simp) hs'⟩
        | cons u sets =>
            obtain ⟨hr, ht, ha', s', hn, hu⟩ := ho
            have hrest := ih hu hc fun k s hk hs => by
              have := ha (k + 1) s (Nat.succ_lt_succ hk) hs
              rwa [show count + 1 + (k + 1) = count + 1 + 1 + k by omega] at this
            rw [visible_cons hc] at hrest ⊢
            exact ⟨hr, ht, ha 0 s (by simp) ha', _, turn hc hn, hrest⟩
      · rw [visible_full hc]
        have hr : S.result s = some h ∧ S.tags s = t ∧ after 0 s := by
          cases sets with
          | nil => exact ⟨ho.1, ho.2.1, ho.2.2.1⟩
          | cons u sets => exact ⟨ho.1, ho.2.1, ho.2.2.1⟩
        have ha := ha 0 s (by simp) hr.2.2
        exact ⟨hr.1, hr.2.1, ha, _, stuck hc, ha⟩

theorem Scanner.Shows.limit {F : Feed} {s : S.State} (hs : S.Shows F s) (count : Nat) :
    (S.limit n).Shows (F.limit n count) ⟨{}, ⟨s, count⟩⟩ := by
  have next : ∀ {s s' : S.State} {count : Nat} {a : Answer Handle}, n = 0 ∨ count < n →
      S.next s .never = ⟨a, s', .never⟩ →
      (S.limit n).next ⟨{}, ⟨s, count⟩⟩ .never =
        ⟨a, ⟨⟨a.error?, false⟩, ⟨s', if a.isFound then count + 1 else count⟩⟩, .never⟩ := by
    intro s s' count a hc hn
    refine Scanner.next_never (by simpa [Scanner.limit] using hc) ?_
    simp only [Scanner.limit, id, hn]
    rfl
  induction F generalizing s count with
  | done =>
      obtain ⟨s', hn⟩ := hs
      by_cases hc : n = 0 ∨ count < n
      · exact ⟨_, next hc hn⟩
      · exact ⟨_, if_neg (by simpa [Scanner.limit] using hc)⟩
  | failed e =>
      obtain ⟨s', hn⟩ := hs
      unfold Feed.limit
      by_cases hc : n = 0 ∨ count < n
      · rw [if_pos hc]
        exact ⟨_, next hc hn⟩
      · rw [if_neg hc]
        exact ⟨_, if_neg (by simpa [Scanner.limit] using hc)⟩
  | row h sets rest ih =>
      obtain ⟨s', hn, ho⟩ := hs
      unfold Feed.limit
      by_cases hc : n = 0 ∨ count < n
      · rw [if_pos hc]
        refine ⟨_, next hc hn, ho.limit hc fun k s hk hs => ?_⟩
        have hcount : count + min (k + 1) sets.length = count + 1 + k := by omega
        simp only [hcount]
        exact ih k hs _
      · rw [if_neg hc]
        exact ⟨_, if_neg (by simpa [Scanner.limit] using hc)⟩

end Limit

/-! ### Limits that do not depend on turning -/

def setCount : List Row → Nat
  | [] => 0
  | r :: rows => r.sets.length + setCount rows

/-- However often one turns at the rows, a limit of `n` lets the same through: it cuts nothing off,
or every result before the last one let through has one binding set. -/
def SteadyAt (n : Nat) (rows : List Row) : Prop :=
  setCount rows ≤ n ∨ ∀ r ∈ rows.dropLast.take (n - 1), r.sets.length = 1

instance (n : Nat) (rows : List Row) : Decidable (SteadyAt n rows) :=
  inferInstanceAs (Decidable (_ ∨ _))

/-- The rows up to the first `n` binding sets. -/
def cut : Nat → List Row → List Row
  | _, [] => []
  | n, r :: rows => if n = 0 then [] else ⟨r.handle, r.sets.take n⟩ :: cut (n - r.sets.length) rows

theorem setCount_cons (r : Row) (rows : List Row) :
    setCount (r :: rows) = r.sets.length + setCount rows :=
  rfl

theorem cut_zero (rows : List Row) : cut 0 rows = [] := by
  cases rows <;> rfl

theorem cut_cons {n : Nat} (hn : n ≠ 0) (r : Row) (rows : List Row) :
    cut n (r :: rows) = ⟨r.handle, r.sets.take n⟩ :: cut (n - r.sets.length) rows :=
  if_neg hn

theorem cut_eq_self {n : Nat} {rows : List Row} (hne : ∀ r ∈ rows, r.sets ≠ [])
    (hn : setCount rows ≤ n) : cut n rows = rows := by
  induction rows generalizing n with
  | nil => rfl
  | cons r rows ih =>
      rw [setCount_cons] at hn
      have hpos := List.length_pos_iff.2 (hne r (List.mem_cons_self ..))
      rw [cut_cons (by omega), List.take_of_length_le (by omega),
        ih (fun q hq => hne q (List.mem_cons_of_mem _ hq)) (by omega)]

theorem SteadyAt.zero (rows : List Row) : SteadyAt 0 rows :=
  .inr (by simp)

section Steady

variable {n count : Nat} {r : Row} {rows : List Row}

theorem steadyAt_cons_iff : SteadyAt n (r :: rows) ↔
    r.sets.length + setCount rows ≤ n ∨ rows = [] ∨ n ≤ 1 ∨
      (r.sets.length = 1 ∧ SteadyAt (n - 1) rows) := by
  by_cases hrows : rows = []
  · subst hrows
    simp [SteadyAt]
  by_cases hn : n ≤ 1
  · simp [SteadyAt, hn, show n - 1 = 0 by omega]
  obtain ⟨m, rfl⟩ : ∃ m, n = m + 2 := ⟨n - 2, by omega⟩
  simp only [SteadyAt, setCount_cons, List.dropLast_cons_of_ne_nil hrows, Nat.add_sub_cancel,
    show m + 2 - 1 = m + 1 by omega, List.take_succ_cons, List.forall_mem_cons, hrows, hn, false_or]
  constructor
  · rintro (hall | ⟨hone, hrest⟩)
    · exact .inl hall
    · exact .inr ⟨hone, .inr hrest⟩
  · rintro (hall | ⟨hone, hall | hrest⟩)
    · exact .inl hall
    · exact .inl (by omega)
    · exact .inr ⟨hone, hrest⟩

/-- Of two limits, one steady at what the other lets through, the smaller one is steady. -/
theorem SteadyAt.stacked {m : Nat} (hne : ∀ r ∈ rows, r.sets ≠ []) (hm : SteadyAt m rows)
    (hn : SteadyAt n (cut m rows)) : SteadyAt (min m n) rows := by
  by_cases hle : m ≤ n
  · rwa [Nat.min_eq_left hle]
  · rw [Nat.min_eq_right (by omega)]
    rcases hm with hall | hone
    · rwa [cut_eq_self hne hall] at hn
    · exact .inr fun r hr => hone r (List.take_subset_take_left _ (by omega) hr)

/-- What is let through after a result does not depend on the turns at it. -/
theorem SteadyAt.cut_turned (hs : SteadyAt n (r :: rows)) (hne : ∀ q ∈ rows, q.sets ≠ [])
    {turned : Nat} (hpos : 0 < turned) (hle : turned ≤ r.sets.length) :
    SteadyAt (n - turned) rows ∧ cut (n - turned) rows = cut (n - r.sets.length) rows := by
  rcases steadyAt_cons_iff.1 hs with hall | rfl | hn | ⟨hone, hrest⟩
  · refine ⟨.inl (by omega), ?_⟩
    rw [cut_eq_self hne (by omega), cut_eq_self hne (by omega)]
  · exact ⟨.inr (by simp), rfl⟩
  · rw [show n - turned = 0 by omega, show n - r.sets.length = 0 by omega]
    exact ⟨.zero rows, rfl⟩
  · obtain rfl : turned = 1 := by omega
    rw [hone]
    exact ⟨hrest, rfl⟩

/-- A steady limit lets the first rows through. -/
theorem Feed.limit_ofRows (hn : n ≠ 0) (hne : ∀ r ∈ rows, r.sets ≠ [])
    (hs : SteadyAt (n - count) rows) :
    (Feed.ofRows rows).limit n count = .ofRows (cut (n - count) rows) := by
  induction rows generalizing count with
  | nil => rfl
  | cons r rows ih =>
      have hrest : ∀ q ∈ rows, q.sets ≠ [] := fun q hq => hne q (List.mem_cons_of_mem _ hq)
      have hpos := List.length_pos_iff.2 (hne r (List.mem_cons_self ..))
      by_cases hc : count < n
      · rw [cut_cons (by omega), Feed.ofRows, Feed.limit, if_pos (.inr hc), Feed.ofRows, visible,
          if_neg hn]
        congr 1
        funext k
        obtain ⟨hsteady, hcut⟩ := hs.cut_turned hrest (Nat.lt_min.2 ⟨Nat.succ_pos k, hpos⟩)
          (Nat.min_le_right ..)
        rw [Nat.sub_sub] at hsteady hcut
        rw [ih hrest hsteady, hcut]
      · rw [show n - count = 0 by omega, cut_zero]
        exact if_neg (by omega)

end Steady

/-! ## Skipping -/

def Feed.skip : Nat → Feed → Feed
  | 0, F => F
  | _ + 1, .done => .done
  | _ + 1, .failed e => .failed e
  | n + 1, .row _ _ rest => (rest 0).skip n

section Skip

variable {S : Scanner} {n : Nat}

theorem Scanner.Shows.skip {F : Feed} {s : S.State} (hs : S.Shows F s) (count : Nat) :
    (S.skip n).Shows (F.skip count) ⟨{}, ⟨s, count⟩⟩ := by
  have next : ∀ {s s' : S.State} {count count' : Nat} {a : Answer Handle},
      S.advancePast count s .never = ⟨a, ⟨s', count'⟩, .never⟩ →
      (S.skip n).next ⟨{}, ⟨s, count⟩⟩ .never = ⟨a, ⟨⟨a.error?, false⟩, ⟨s', count'⟩⟩, .never⟩ :=
    fun hp => Scanner.next_never rfl hp
  have past : ∀ {F : Feed} {s : S.State}, S.Shows F s →
      (S.skip n).Shows F ⟨{}, ⟨s, 0⟩⟩ := by
    intro F
    induction F with
    | done =>
        intro s hs
        obtain ⟨s', hn⟩ := hs
        exact ⟨_, next (by rw [Scanner.advancePast, hn]; rfl)⟩
    | failed e =>
        intro s hs
        obtain ⟨s', hn⟩ := hs
        exact ⟨_, next (by rw [Scanner.advancePast, hn]; rfl)⟩
    | row h sets rest ih =>
        intro s hs
        obtain ⟨s', hn, ho⟩ := hs
        refine ⟨_, next (by rw [Scanner.advancePast, hn]; rfl), ?_⟩
        have hw : (S.skip n).Offers h none (fun k => (S.skip n).Shows (rest k)) (sets.map id)
            ⟨{}, ⟨s', 0⟩⟩ :=
          ho.wrap (D := (S.skip n).toCursor) (fun s => (⟨s, 0⟩ : Counted S)) id
            (fun _ hr => hr) (fun _ _ => rfl) (fun _ => rfl) (fun _ _ => rfl) fun k s hs => ih k hs
        rwa [List.map_id] at hw
  induction count generalizing F s with
  | zero => exact past hs
  | succ count ih =>
      cases F with
      | done =>
          obtain ⟨s', hn⟩ := hs
          exact ⟨_, next (by rw [Scanner.advancePast, hn]; rfl)⟩
      | failed e =>
          obtain ⟨s', hn⟩ := hs
          exact ⟨_, next (by rw [Scanner.advancePast, hn]; rfl)⟩
      | row h sets rest =>
          obtain ⟨s', hn, ho⟩ := hs
          refine Scanner.Shows.congr ?_ (ih ho.start)
          -- Passing over one result leaves one fewer to pass over.
          refine Scanner.next_congr rfl rfl ?_
          show S.advancePast (count + 1) s .never = S.advancePast count s' .never
          rw [Scanner.advancePast, hn]
          rfl

end Skip

end GraphQuery
