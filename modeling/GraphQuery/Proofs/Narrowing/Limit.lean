import GraphQuery.Proofs.Narrowing.Feed

/-!
# What a limit may come to show

A limit counts the binding sets that are turned to, so the fewer turns are made at some results, the
more of those after them it shows. `reach` tells how far that may go: every row as if none before it
had been turned at. `cut` tells what is shown when all binding sets are turned to.
-/

namespace GraphQuery

/-- The rows that a limit of `n` shows, each if those before it are not turned at. -/
def reach : Nat → List Row → List Row
  | _, [] => []
  | n, r :: rows => if n = 0 then [] else ⟨r.handle, r.sets.take n⟩ :: reach (n - 1) rows

theorem reach_cons {n : Nat} (hn : n ≠ 0) (r : Row) (rows : List Row) :
    reach n (r :: rows) = ⟨r.handle, r.sets.take n⟩ :: reach (n - 1) rows :=
  if_neg hn

theorem reach_mono {m n : Nat} (hle : m ≤ n) {rows : List Row} :
    ∀ r ∈ reach m rows, ∃ r' ∈ reach n rows, r.Begins r' := by
  induction rows generalizing m n with
  | nil => exact fun r hr => by cases hr
  | cons q rows ih =>
      intro r hr
      by_cases hm : m = 0
      · subst hm
        cases hr
      · rw [reach_cons hm] at hr
        rw [reach_cons (by omega)]
        rcases List.mem_cons.1 hr with rfl | hr
        · exact ⟨_, List.mem_cons_self .., rfl, List.take_prefix_take_left hle⟩
        · obtain ⟨r', hr', hbegins⟩ := ih (show m - 1 ≤ n - 1 by omega) r hr
          exact ⟨r', List.mem_cons_of_mem _ hr', hbegins⟩

/-- What is reached is shown once those before it are left out. -/
theorem exists_cut_of_mem_reach {n : Nat} {rows : List Row} {r : Row} (hr : r ∈ reach n rows) :
    ∃ j, r ∈ cut (n - j) (rows.drop j) := by
  induction rows generalizing n with
  | nil => cases hr
  | cons q rows ih =>
      by_cases hn : n = 0
      · subst hn
        cases hr
      · rw [reach_cons hn] at hr
        rcases List.mem_cons.1 hr with rfl | hr
        · exact ⟨0, by rw [Nat.sub_zero, List.drop_zero, cut_cons hn]; exact List.mem_cons_self ..⟩
        · obtain ⟨j, hj⟩ := ih hr
          exact ⟨j + 1, by rwa [Nat.sub_sub, Nat.add_comm] at hj⟩

namespace Feed

variable {F G : Feed} {n count : Nat}

theorem delivered_row (h : Handle) (sets : List Tags) (rest : Nat → Feed) :
    (row h sets rest).delivered =
      ⟨⟨h, sets⟩ :: (rest (sets.length - 1)).delivered.rows,
        (rest (sets.length - 1)).delivered.error⟩ :=
  rfl

theorem Uniform.delivered_rest {h : Handle} {sets : List Tags} {rest : Nat → Feed}
    (hF : (row h sets rest).Uniform) (k : Nat) :
    (rest k).delivered = (rest (sets.length - 1)).delivered := by
  rw [(hF k).1, (hF (sets.length - 1)).1]

theorem limit_row (hcount : count < n) (h : Handle) (sets : List Tags) (rest : Nat → Feed) :
    (row h sets rest).limit n count =
      row h (sets.take (n - count)) fun k => (rest k).limit n (count + min (k + 1) sets.length) := by
  rw [Feed.limit, if_pos (.inr hcount), visible, if_neg (by omega)]

theorem limit_row_full (hn : n ≠ 0) (hcount : ¬ count < n) (h : Handle) (sets : List Tags)
    (rest : Nat → Feed) : (row h sets rest).limit n count = done :=
  if_neg (by omega)

/-- However one turns, a limit shows no more than it reaches. -/
theorem Uniform.seen_limit (hn : n ≠ 0) (hF : F.Uniform)
    (hne : ∀ r ∈ F.delivered.rows, r.sets ≠ []) (turns : Nat → Nat) :
    ∀ r ∈ ((F.limit n count).browsed turns).rows,
      ∃ r' ∈ reach (n - count) F.delivered.rows, r.Begins r' := by
  induction F generalizing count turns with
  | done => exact fun r hr => by cases hr
  | failed e =>
      intro r hr
      unfold Feed.limit at hr
      split at hr <;> cases hr
  | row h sets rest ih =>
      intro r hr
      by_cases hcount : count < n
      · rw [delivered_row] at hne ⊢
        have hpos : 0 < sets.length := List.length_pos_iff.2 (hne ⟨h, sets⟩ (List.mem_cons_self ..))
        rw [limit_row hcount, browsed] at hr
        rw [reach_cons (by omega)]
        rcases List.mem_cons.1 hr with rfl | hr
        · exact ⟨_, List.mem_cons_self .., rfl, List.take_prefix _ _⟩
        · generalize min (turns 0) ((sets.take (n - count)).length - 1) = k at hr
          have hrows := congrArg Delivered.rows (hF.delivered_rest k)
          obtain ⟨r', hr', hbegins⟩ := ih k (hF k).2
            (fun q hq => hne q (List.mem_cons_of_mem _ (hrows ▸ hq))) _ r hr
          rw [hrows] at hr'
          obtain ⟨r'', hr'', hle⟩ := reach_mono
            (show n - (count + min (k + 1) sets.length) ≤ n - count - 1 by
              have := Nat.lt_min.2 ⟨Nat.succ_pos k, hpos⟩
              omega) r' hr'
          exact ⟨r'', List.mem_cons_of_mem _ hr'', hbegins.handle.trans hle.handle,
            hbegins.sets.trans hle.sets⟩
      · rw [limit_row_full hn hcount] at hr
        cases hr

/-- A full drain of a limit delivers the rows up to the first `n` binding sets; it gets to the error
of the feed only if these are not all there are. -/
theorem Uniform.delivered_limit (hn : n ≠ 0) (hF : F.Uniform) :
    (F.limit n count).delivered =
      ⟨cut (n - count) F.delivered.rows,
        if setCount F.delivered.rows < n - count then F.delivered.error else none⟩ := by
  induction F generalizing count with
  | done =>
      show (⟨[], none⟩ : Delivered) = ⟨[], if _ then none else none⟩
      rw [ite_self]
  | failed e =>
      by_cases hcount : count < n
      · rw [Feed.limit, if_pos (.inr hcount)]
        show (⟨[], some e⟩ : Delivered) = ⟨[], if 0 < n - count then some e else none⟩
        rw [if_pos (by omega)]
      · rw [Feed.limit, if_neg (by omega)]
        show (⟨[], none⟩ : Delivered) = ⟨[], if 0 < n - count then some e else none⟩
        rw [if_neg (by omega)]
  | row h sets rest ih =>
      rw [delivered_row]
      by_cases hcount : count < n
      · rw [limit_row hcount, delivered_row, ih _ (hF _).2, hF.delivered_rest, cut_cons (by omega),
          setCount_cons, List.length_take]
        have hleft : n - (count + min (min (n - count) sets.length - 1 + 1) sets.length) =
            n - count - sets.length := by omega
        have hroom : setCount (rest (sets.length - 1)).delivered.rows < n - count - sets.length ↔
            sets.length + setCount (rest (sets.length - 1)).delivered.rows < n - count := by
          omega
        simp only [hleft, hroom]
      · rw [limit_row_full hn hcount, show n - count = 0 by omega, cut_zero]
        simp [Feed.drain]

/-- If a full drain of a limit fails, so does all that narrows it. -/
theorem Narrows.error_limit (hF : F.Uniform) (hG : Narrows (F.limit n count) G) {e : QueryError}
    (herror : F.delivered.error = some e) (hroom : setCount F.delivered.rows < n - count)
    (turns : Nat → Nat) : (G.browsed turns).error ≠ none := by
  induction F generalizing count G turns with
  | done => cases herror
  | failed e =>
      rw [Feed.limit, if_pos (.inr (by omega))] at hG
      cases hG with
      | failed F e => exact Option.some_ne_none e
  | row h sets rest ih =>
      rw [delivered_row, setCount_cons] at hroom
      rw [delivered_row] at herror
      rw [limit_row (by omega)] at hG
      have hrest : ∀ {k G turns}, Narrows ((rest k).limit n (count + min (k + 1) sets.length)) G →
          (G.browsed turns).error ≠ none := by
        intro k G turns hG
        have hsame := hF.delivered_rest k
        refine ih k (hF k).2 hG (by rw [hsame]; exact herror) ?_ turns
        rw [hsame]
        change sets.length + setCount (rest (sets.length - 1)).delivered.rows < _ at hroom
        omega
      cases hG with
      | failed F e => exact Option.some_ne_none e
      | drop hG => exact hrest hG
      | @keep _ _ _ kept turned hle hkept =>
          show ((kept (min (turns 0) _)).browsed fun i => turns (i + 1)).error ≠ none
          exact hrest (hkept _ (Nat.min_le_right ..))

/-- What is shown of a limit after the first `j` results have been skipped. -/
theorem Uniform.delivered_skip_limit (hn : n ≠ 0) (hF : F.Uniform)
    (hne : ∀ r ∈ F.delivered.rows, r.sets ≠ []) (herror : F.delivered.error = none) (j : Nat) :
    ((F.limit n count).skip j).delivered =
      ⟨cut (n - count - j) (F.delivered.rows.drop j), none⟩ := by
  induction j generalizing F count with
  | zero =>
      rw [Feed.skip, hF.delivered_limit hn, herror, ite_self]
      rfl
  | succ j ih =>
      cases F with
      | done => rfl
      | failed e => cases herror
      | row h sets rest =>
          have hpos : 0 < sets.length :=
            List.length_pos_iff.2 (hne ⟨h, sets⟩ (List.mem_cons_self ..))
          by_cases hcount : count < n
          · have hsame := hF.delivered_rest 0
            have hrest : (((rest 0).limit n (count + 1)).skip j).delivered = _ := ih (hF 0).2
              (fun r hr => hne r (List.mem_cons_of_mem _ (by rwa [hsame] at hr)))
              (by rw [hsame]; exact herror)
            rw [hsame] at hrest
            rw [limit_row hcount, Feed.skip, show min (0 + 1) sets.length = 1 by omega, hrest,
              delivered_row, List.drop_succ_cons, Nat.sub_sub, Nat.sub_sub, Nat.add_assoc,
              Nat.add_comm 1]
          · rw [limit_row_full hn hcount, show n - count - (j + 1) = 0 by omega, cut_zero]
            rfl

end Feed

/-! ## What is collected -/

theorem Row.results_subset_of_begins {rows rows' : List Row}
    (h : ∀ r ∈ rows, ∃ r' ∈ rows', r.Begins r') :
    rows.flatMap Row.results ⊆ rows'.flatMap Row.results := by
  intro x hx
  obtain ⟨r, hr, hx⟩ := List.mem_flatMap.1 hx
  obtain ⟨r', hr', hhandle, hsets⟩ := h r hr
  obtain ⟨t, ht, rfl⟩ := List.mem_map.1 hx
  refine List.mem_flatMap.2 ⟨r', hr', List.mem_map.2 ⟨t, hsets.subset ht, ?_⟩⟩
  rw [hhandle]

theorem Row.Begins.upTo_zero {r r' : Row} (h : r.Begins r') (hne : r.sets ≠ []) :
    r.upTo 0 = r'.upTo 0 := by
  obtain ⟨hhandle, others, hsets⟩ := h
  obtain ⟨t, sets, hr⟩ := List.exists_cons_of_ne_nil hne
  rw [Row.upTo, Row.upTo, hhandle, ← hsets, hr]
  rfl

theorem reach_upTo_zero (n : Nat) (rows : List Row) :
    (reach n rows).map (fun r => r.upTo 0) = (rows.take n).map fun r => r.upTo 0 := by
  induction rows generalizing n with
  | nil => rw [List.take_nil]; rfl
  | cons r rows ih =>
      cases n with
      | zero => rfl
      | succ n =>
          have hfirst : (r.sets.take (n + 1)).take 1 = r.sets.take 1 := by
            rw [List.take_take, Nat.min_eq_left (by omega)]
          rw [reach_cons (Nat.succ_ne_zero n), List.take_succ_cons, List.map_cons, List.map_cons,
            show n + 1 - 1 = n from rfl, ih, Row.upTo, Row.upTo, hfirst]

theorem Delivered.collected_eq_ok {d : Delivered} {rows : List ResultRow} :
    d.collected = .ok rows ↔ d.error = none ∧ d.results = rows := by
  unfold Delivered.collected
  cases d.error with
  | none => simp
  | some e => simp

namespace Feed

/-- Someone who never turns is shown the first `n` results of a feed. -/
theorem Uniform.skim_limit {F : Feed} {n count : Nat} (hn : n ≠ 0) (hF : F.Uniform)
    (hne : ∀ r ∈ F.delivered.rows, r.sets ≠ []) (herror : F.delivered.error = none) :
    (F.limit n count).skim = ⟨(F.delivered.rows.take (n - count)).map fun r => r.upTo 0, none⟩ := by
  induction F generalizing count with
  | done => simp [Feed.limit, Feed.skim, Feed.drain]
  | failed e => cases herror
  | row h sets rest ih =>
      have hsame := hF.delivered_rest 0
      rw [delivered_row] at hne herror ⊢
      by_cases hcount : count < n
      · have hpos : 0 < sets.length := List.length_pos_iff.2 (hne ⟨h, sets⟩ (List.mem_cons_self ..))
        have hrest : ((rest 0).limit n (count + 1)).skim = _ := ih 0 (hF 0).2
          (fun r hr => hne r (List.mem_cons_of_mem _ (by rwa [hsame] at hr)))
          (by rw [hsame]; exact herror)
        obtain ⟨left, hleft⟩ : ∃ left, n - count = left + 1 := ⟨n - count - 1, by omega⟩
        rw [limit_row hcount, Feed.skim, show min (0 + 1) sets.length = 1 by omega, hrest, hsame,
          hleft, List.take_succ_cons, show n - (count + 1) = left by omega, List.take_take,
          Nat.min_eq_left (by omega)]
        rfl
      · rw [limit_row_full hn hcount, show n - count = 0 by omega]
        rfl

theorem upTo_zero_of_mem_skim {F : Feed} {r : Row} (hr : r ∈ F.skim.rows) : r.upTo 0 = r := by
  induction F with
  | done => cases hr
  | failed e => cases hr
  | row h sets rest ih =>
      rcases List.mem_cons.1 hr with rfl | hr
      · rw [Row.upTo, List.take_take]
        rfl
      · exact ih 0 hr

section

variable {F G : Feed} {n : Nat} {rows : List ResultRow} {turns : Nat → Nat}

/-- What is collected of a narrowed feed is seen of the feed. -/
theorem Narrows.collected (hG : F.Narrows G) (hrows : (G.browsed turns).collected = .ok rows) :
    ∃ turns', rows ⊆ (F.browsed turns').results := by
  obtain ⟨turns', hseen⟩ := hG.seen turns
  obtain ⟨-, rfl⟩ := Delivered.collected_eq_ok.1 hrows
  exact ⟨turns', Row.results_subset_of_begins hseen⟩

/-- What is collected of a narrowed limit is within its reach. -/
theorem Narrows.reached (hn : n ≠ 0) (hF : F.Uniform) (hne : ∀ r ∈ F.delivered.rows, r.sets ≠ [])
    (hG : (F.limit n 0).Narrows G) :
    ∀ r ∈ (G.browsed turns).rows, ∃ r' ∈ reach n F.delivered.rows, r.Begins r' := by
  intro r hr
  obtain ⟨turns', hseen⟩ := hG.seen turns
  obtain ⟨q, hq, hbegins⟩ := hseen r hr
  obtain ⟨r', hr', hle⟩ := hF.seen_limit hn hne turns' q hq
  exact ⟨r', hr', hbegins.handle.trans hle.handle, hbegins.sets.trans hle.sets⟩

/-- If a limit shows all that it reaches, what narrows it collects nothing else. -/
theorem Narrows.collected_limit (hn : n ≠ 0) (hF : F.Uniform)
    (hne : ∀ r ∈ F.delivered.rows, r.sets ≠ [])
    (hreach : (reach n F.delivered.rows).flatMap Row.results ⊆
      (cut n F.delivered.rows).flatMap Row.results)
    (hG : (F.limit n 0).Narrows G) (hrows : (G.browsed turns).collected = .ok rows) :
    ∃ rows', (F.limit n 0).delivered.collected = .ok rows' ∧ rows ⊆ rows' := by
  obtain ⟨herror, rfl⟩ := Delivered.collected_eq_ok.1 hrows
  have hwhole : (F.limit n 0).delivered.error = none := by
    rw [hF.delivered_limit hn]
    by_contra hfails
    dsimp only at hfails
    split at hfails
    · obtain ⟨e, he⟩ := Option.ne_none_iff_exists'.1 hfails
      exact hG.error_limit hF he ‹_› turns herror
    · exact hfails rfl
  refine ⟨_, Delivered.collected_eq_ok.2 ⟨hwhole, rfl⟩, ?_⟩
  rw [hF.delivered_limit hn, Delivered.results, Delivered.results, Nat.sub_zero]
  exact List.Subset.trans (Row.results_subset_of_begins (hG.reached hn hF hne)) hreach

/-- Without alternates it always does, if the feed does not fail. -/
theorem Narrows.skimmed_limit (hn : n ≠ 0) (hF : F.Uniform)
    (hne : ∀ r ∈ F.delivered.rows, r.sets ≠ []) (herror : F.delivered.error = none)
    (hG : (F.limit n 0).Narrows G) (hrows : G.skim.collected = .ok rows) :
    ∃ rows', (F.limit n 0).skim.collected = .ok rows' ∧ rows ⊆ rows' := by
  obtain ⟨-, rfl⟩ := Delivered.collected_eq_ok.1 hrows
  rw [hF.skim_limit hn hne herror]
  refine ⟨_, Delivered.collected_eq_ok.2 ⟨rfl, rfl⟩, fun x hx => ?_⟩
  obtain ⟨r, hr, hx⟩ := List.mem_flatMap.1 hx
  have hseen : r ∈ (G.browsed fun _ => 0).rows := G.skim_eq_browsed ▸ hr
  obtain ⟨r', hr', hbegins⟩ := hG.reached hn hF hne r hseen
  have hsets : r.sets ≠ [] := by
    intro hnil
    rw [Row.results, hnil] at hx
    cases hx
  have hshown : r ∈ (reach n F.delivered.rows).map fun r => r.upTo 0 :=
    List.mem_map.2 ⟨r', hr', (hbegins.upTo_zero hsets).symm.trans (upTo_zero_of_mem_skim hr)⟩
  rw [reach_upTo_zero] at hshown
  exact List.mem_flatMap.2 ⟨r, hshown, hx⟩

/-- If what is collected after each skip is collected of a limit, it shows all that it reaches. -/
theorem Uniform.reach_subset (hn : n ≠ 0) (hF : F.Uniform)
    (hne : ∀ r ∈ F.delivered.rows, r.sets ≠ []) (herror : F.delivered.error = none)
    (hskip : ∀ m rows, ((F.limit n 0).skip m).delivered.collected = .ok rows →
      ∃ rows', (F.limit n 0).delivered.collected = .ok rows' ∧ rows ⊆ rows') :
    (reach n F.delivered.rows).flatMap Row.results ⊆
      (cut n F.delivered.rows).flatMap Row.results := by
  intro x hx
  obtain ⟨r, hr, hx⟩ := List.mem_flatMap.1 hx
  obtain ⟨m, hm⟩ := exists_cut_of_mem_reach hr
  have hleft : ((F.limit n 0).skip m).delivered = _ :=
    hF.delivered_skip_limit hn hne herror m
  obtain ⟨rows', hrows', hle⟩ := hskip m _ (Delivered.collected_eq_ok.2 ⟨by rw [hleft], rfl⟩)
  obtain ⟨-, rfl⟩ := Delivered.collected_eq_ok.1 hrows'
  rw [hleft, hF.delivered_limit hn] at hle
  exact hle (List.mem_flatMap.2 ⟨r, hm, hx⟩)

end

end Feed

end GraphQuery
