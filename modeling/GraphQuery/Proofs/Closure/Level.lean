import GraphQuery.Cursor.Closure

/-!
# One level of a closure

A level takes in candidates one by one. What it shows is new, as a handle with a binding set; what
it passes on is that part of it whose handles are new.
-/

namespace GraphQuery

namespace Reached

theorem mem_handles {r : Reached} {x : Handle} : x ∈ r.handles ↔ ∃ t, (x, t) ∈ r := by
  simp [handles]

theorem mem_inherited {r : Reached} {x : Handle} {t : Tags} : t ∈ r.inherited x ↔ (x, t) ∈ r := by
  simp [inherited]

theorem handles_append (r q : Reached) : handles (r ++ q) = r.handles ++ q.handles :=
  List.map_append

theorem mem_inputs {r : Reached} {x : Handle} : x ∈ r.inputs.toList ↔ x ∈ r.handles := by
  simp [inputs]

theorem forall_inputs {r : Reached} {ok : Handle → Prop} (hr : ∀ p ∈ r, ok p.1) :
    ∀ x ∈ r.inputs.toList, ok x := by
  intro x hx
  obtain ⟨t, hp⟩ := mem_handles.1 (mem_inputs.1 hx)
  exact hr _ hp

theorem mem_addNew {r : Reached} {p q : Handle × Tags} : p ∈ r.addNew q ↔ p ∈ r ∨ p = q := by
  unfold addNew
  split
  · rename_i hq
    have hq : q ∈ r := by simpa using hq
    exact ⟨.inl, fun h => h.elim id fun h => h ▸ hq⟩
  · simp

theorem mem_ofRows {rows : List Row} {x : Handle} {t : Tags} :
    (x, t) ∈ ofRows rows ↔ ∃ r ∈ rows, r.handle = x ∧ t ∈ r.sets := by
  have hfold : ∀ (ps acc : Reached) (p : Handle × Tags),
      p ∈ ps.foldl addNew acc ↔ p ∈ acc ∨ p ∈ ps := by
    intro ps
    induction ps with
    | nil => simp
    | cons q ps ih =>
        intro acc p
        rw [List.foldl_cons, ih, mem_addNew, List.mem_cons, or_assoc]
  rw [ofRows, hfold]
  simp only [List.not_mem_nil, false_or, List.mem_flatMap, List.mem_map, Prod.mk.injEq]
  constructor
  · rintro ⟨r, hr, u, hu, rfl, rfl⟩
    exact ⟨r, hr, rfl, hu⟩
  · rintro ⟨r, hr, rfl, ht⟩
    exact ⟨r, hr, t, ht, rfl, rfl⟩

theorem mem_handles_ofRows {rows : List Row} (hne : ∀ r ∈ rows, r.sets ≠ []) {x : Handle} :
    x ∈ (ofRows rows).handles ↔ x ∈ rows.map Row.handle := by
  simp only [mem_handles, mem_ofRows, List.mem_map]
  constructor
  · rintro ⟨t, r, hr, hx, -⟩
    exact ⟨r, hr, hx⟩
  · rintro ⟨r, hr, hx⟩
    obtain ⟨t, ht⟩ := List.exists_mem_of_ne_nil _ (hne r hr)
    exact ⟨t, r, hr, hx, ht⟩

end Reached

namespace Level

variable {bindings : ClosureBindings} {seen frontier candidates : Reached} {l : Level}
  {rows : List Row} {p : Handle × Tags}

/-- A candidate is a result with a binding set that the frontier has for the base of the result. -/
theorem mem_candidates_iff :
    p ∈ Level.candidates frontier rows ↔ ∃ row ∈ rows, row.handle = p.1 ∧
      ∃ tags ∈ row.sets, ∃ base, tags.get? baseName = some base ∧ (base, p.2) ∈ frontier := by
  obtain ⟨x, t⟩ := p
  simp only [Level.candidates, List.mem_flatMap]
  constructor
  · rintro ⟨row, hrow, tags, htags, hp⟩
    cases hbase : tags.get? baseName with
    | none => simp [hbase] at hp
    | some base =>
        simp only [hbase, List.mem_map, Prod.mk.injEq] at hp
        obtain ⟨_, hu, rfl, rfl⟩ := hp
        exact ⟨row, hrow, rfl, tags, htags, base, hbase, Reached.mem_inherited.1 hu⟩
  · rintro ⟨row, hrow, rfl, tags, htags, base, hbase, hp⟩
    refine ⟨row, hrow, tags, htags, ?_⟩
    rw [hbase]
    exact List.mem_map.2 ⟨t, Reached.mem_inherited.2 hp, rfl⟩

/-- What a level has made of candidates, given what was seen before it. -/
structure Made (seen candidates : Reached) (l : Level) : Prop where
  grown : l.seen = seen ++ l.shown
  fresh_eq : l.fresh = l.shown.filter fun p => p.1 ∉ seen.handles
  new : ∀ p ∈ l.shown, p ∈ candidates ∧ p ∉ seen
  nodup : l.shown.Nodup
  complete : ∀ p ∈ candidates, p.1 ∈ l.seen.handles

theorem made_nil (seen : Reached) : Made seen [] ⟨seen, [], []⟩ :=
  ⟨by simp, rfl, by simp, .nil, by simp⟩

theorem Made.mem_fresh (hl : Made seen candidates l) :
    p ∈ l.fresh ↔ p ∈ l.shown ∧ p.1 ∉ seen.handles := by
  simp [hl.fresh_eq]

theorem Made.fresh_eq_nil (hl : Made seen candidates l) (hshown : l.shown = []) : l.fresh = [] := by
  rw [hl.fresh_eq, hshown]
  rfl

theorem Made.mem_handles_fresh (hl : Made seen candidates l) {x : Handle} :
    x ∈ l.fresh.handles ↔ x ∈ l.seen.handles ∧ x ∉ seen.handles := by
  simp only [Reached.mem_handles, hl.grown, hl.mem_fresh, List.mem_append]
  constructor
  · rintro ⟨t, ht, hx⟩
    exact ⟨⟨t, .inr ht⟩, hx⟩
  · rintro ⟨⟨t, ht | ht⟩, hx⟩
    · exact (hx ⟨t, ht⟩).elim
    · exact ⟨t, ht, hx⟩

theorem Made.append (hl : Made seen candidates l) (hp : p ∉ l.seen) :
    Made seen (candidates ++ [p]) ⟨l.seen ++ [p], l.shown ++ [p],
      if p.1 ∈ seen.handles then l.fresh else l.fresh ++ [p]⟩ := by
  rw [hl.grown, List.mem_append, not_or] at hp
  refine ⟨by rw [hl.grown, List.append_assoc], ?_, fun q hq => ?_, ?_, fun q hq => ?_⟩
  · dsimp only
    rw [List.filter_append, hl.fresh_eq]
    split <;> simp_all
  · rcases List.mem_append.1 hq with hq | hq
    · exact ⟨List.mem_append_left _ (hl.new q hq).1, (hl.new q hq).2⟩
    · obtain rfl := List.mem_singleton.1 hq
      exact ⟨List.mem_append_right _ hq, hp.1⟩
  · refine List.nodup_append.2 ⟨hl.nodup, by simp, fun a ha b hb => ?_⟩
    rw [List.mem_singleton.1 hb]
    rintro rfl
    exact hp.2 ha
  · rw [Reached.handles_append, List.mem_append]
    rcases List.mem_append.1 hq with hq | hq
    · exact .inl (hl.complete q hq)
    · exact .inr (by simp [Reached.handles, List.mem_singleton.1 hq])

theorem Made.known (hl : Made seen candidates l) (hp : p.1 ∈ l.seen.handles) :
    Made seen (candidates ++ [p]) l where
  grown := hl.grown
  fresh_eq := hl.fresh_eq
  new q hq := ⟨List.mem_append_left _ (hl.new q hq).1, (hl.new q hq).2⟩
  nodup := hl.nodup
  complete q hq := (List.mem_append.1 hq).elim (hl.complete q) fun hq =>
    List.mem_singleton.1 hq ▸ hp

theorem made_absorb (bindings : ClosureBindings) (hl : Made seen candidates l)
    (p : Handle × Tags) : Made seen (candidates ++ [p]) (l.absorb bindings p) := by
  unfold absorb
  by_cases hp : l.seen.handles.contains p.1 = true
  · have hp' : p.1 ∈ l.seen.handles := by simpa using hp
    rw [if_pos hp]
    split
    · rename_i hnew
      have happ := hl.append (p := p) (by simpa using hnew.2)
      have hfresh : (l.fresh.handles.contains p.1 = true) ↔ p.1 ∉ seen.handles := by
        simp [hl.mem_handles_fresh, hp']
      by_cases hseen : p.1 ∈ seen.handles
      · rw [if_pos hseen] at happ
        rwa [if_neg fun hmem => hfresh.1 hmem hseen]
      · rw [if_neg hseen] at happ
        rwa [if_pos (hfresh.2 hseen)]
    · exact hl.known hp'
  · rw [if_neg hp]
    have hp : p.1 ∉ l.seen.handles := by simpa using hp
    have happ := hl.append (p := p) fun hmem => hp (Reached.mem_handles.2 ⟨p.2, hmem⟩)
    rwa [if_neg fun hmem => hp ?_] at happ
    rw [hl.grown, Reached.handles_append]
    exact List.mem_append_left _ hmem

/-- What is kept while candidates are taken in holds of a level. -/
theorem ofRows_induct {P : Reached → Level → Prop} (hstart : P [] ⟨seen, [], []⟩)
    (hstep : ∀ before l p, P before l → P (before ++ [p]) (l.absorb bindings p)) :
    P (Level.candidates frontier rows) (ofRows bindings seen frontier rows) := by
  have hfold : ∀ (ps before : Reached) (l : Level), P before l →
      P (before ++ ps) (ps.foldl (absorb bindings) l) := by
    intro ps
    induction ps with
    | nil => simp
    | cons p ps ih =>
        intro before l hl
        have := ih _ _ (hstep before l p hl)
        rwa [List.append_assoc] at this
  exact hfold _ [] _ hstart

theorem made_ofRows (bindings : ClosureBindings) (seen frontier : Reached) (rows : List Row) :
    Made seen (Level.candidates frontier rows) (ofRows bindings seen frontier rows) :=
  ofRows_induct (made_nil seen) fun _ _ p hl => made_absorb bindings hl p

theorem origin_of_mem_shown (hp : p ∈ (ofRows bindings seen frontier rows).shown) :
    (∃ r ∈ rows, r.handle = p.1) ∧ ∃ q ∈ frontier, q.2 = p.2 := by
  have hcandidate := ((made_ofRows bindings seen frontier rows).new p hp).1
  obtain ⟨row, hrow, hhandle, -, -, base, -, hbase⟩ := mem_candidates_iff.1 hcandidate
  exact ⟨⟨row, hrow, hhandle⟩, _, hbase, rfl⟩

/-! ## First bindings and all bindings -/

/-- A level that shows first bindings shows every handle once, and passes on what it shows. -/
structure Firsts (l : Level) : Prop where
  fresh_eq : l.fresh = l.shown
  nodup : l.shown.handles.Nodup

theorem firsts_ofRows (seen frontier : Reached) (rows : List Row) :
    Firsts (ofRows .first seen frontier rows) := by
  suffices h : Made seen (Level.candidates frontier rows) (ofRows .first seen frontier rows) ∧
      Firsts (ofRows .first seen frontier rows) from h.2
  refine ofRows_induct (P := fun before l => Made seen before l ∧ Firsts l)
    ⟨made_nil seen, rfl, .nil⟩ fun before l p ⟨hl, hfirsts⟩ => ⟨made_absorb .first hl p, ?_⟩
  unfold absorb
  by_cases hp : l.seen.handles.contains p.1 = true
  · rwa [if_pos hp, if_neg (by simp)]
  · rw [if_neg hp]
    have hp : p.1 ∉ l.shown.handles := by
      rw [hl.grown, Reached.handles_append] at hp
      exact fun hmem => hp (by simp [hmem])
    refine ⟨congrArg (· ++ [p]) hfirsts.fresh_eq, ?_⟩
    rw [Reached.handles_append]
    refine List.nodup_append.2 ⟨hfirsts.nodup, by simp [Reached.handles], fun a ha b hb => ?_⟩
    obtain rfl : b = p.1 := by simpa [Reached.handles] using hb
    rintro rfl
    exact hp ha

theorem Firsts.not_mem_seen (hfirsts : Firsts l) (hl : Made seen candidates l)
    (hp : p ∈ l.shown) : p.1 ∉ seen.handles :=
  (hl.mem_fresh.1 (hfirsts.fresh_eq ▸ hp)).2

/-- A level that shows all bindings knows every candidate in the end. -/
theorem mem_seen_of_candidates (seen frontier : Reached) (rows : List Row) :
    ∀ p ∈ Level.candidates frontier rows, p ∈ (ofRows .all seen frontier rows).seen := by
  refine ofRows_induct (P := fun before l => ∀ p ∈ before, p ∈ l.seen) (by simp) ?_
  intro before l p hl q hq
  unfold absorb
  rcases List.mem_append.1 hq with hq | hq
  · split
    · split
      · exact List.mem_append_left _ (hl q hq)
      · exact hl q hq
    · exact List.mem_append_left _ (hl q hq)
  · obtain rfl := List.mem_singleton.1 hq
    split
    · split
      · exact List.mem_append_right _ hq
      · rename_i hknown
        simpa using hknown
    · exact List.mem_append_right _ hq

end Level

end GraphQuery
