import GraphQuery.Cursor.Listing
import GraphQuery.Proofs.Feed.Basic

/-!
# What listings show

A recorded scanner replies with what its drain delivered, and a sorted one shows what the drain
delivered in another order. Both hold binding sets in a list and show one after the other.
-/

namespace GraphQuery

/-- The binding sets that a listing holds are shown as they stand. -/
theorem Cursor.offers_listing {ρ : Type} {start source : ρ} {canTurn : Listing ρ → Bool}
    {release : Listing ρ → Listing ρ} {h : Handle}
    {after : Nat → (Cursor.listing start canTurn release).State → Prop} {sets : List Tags}
    (hne : sets ≠ []) (hcan : ∀ sets, canTurn ⟨source, some h, sets⟩ = true)
    (ha : ∀ k sets, after k ⟨{}, ⟨source, some h, sets⟩⟩) :
    (Cursor.listing start canTurn release).Offers h none after sets
      ⟨{}, ⟨source, some h, sets⟩⟩ := by
  have turn : ∀ {sets sets' : List Tags} {a : Answer Unit},
      Listing.turn ⟨source, some h, sets⟩ .never = ⟨a, ⟨source, some h, sets'⟩, .never⟩ →
      (Cursor.listing start canTurn release).nextPath ⟨{}, ⟨source, some h, sets⟩⟩ .never =
        ⟨a, ⟨⟨a.error?, false⟩, ⟨source, some h, sets'⟩⟩, .never⟩ :=
    fun ht => Cursor.nextPath_never (hcan _) ht
  induction sets generalizing after with
  | nil => exact (hne rfl).elim
  | cons t sets ih =>
      cases sets with
      | nil => exact ⟨rfl, rfl, ha 0 _, _, turn rfl, ha 0 _⟩
      | cons u sets =>
          exact ⟨rfl, rfl, ha 0 _, _, turn rfl, ih (by simp) fun k sets => ha (k + 1) sets⟩

theorem Listing.turn_eq {ρ : Type} (b : Listing ρ) (t : Token) :
    ∃ a sets, b.turn t = ⟨a, ⟨b.source, b.current, sets⟩, t⟩ := by
  unfold turn
  split
  · exact ⟨_, _, rfl⟩
  · exact ⟨_, b.sets, rfl⟩

/-! ## Recorded scanners -/

theorem Index.ready_recorded {S : Scanner} {F : Feed} (hs : S.Shows F S.fresh) :
    S.recorded.Ready F.delivered.reply S.recorded.fresh := by
  obtain ⟨s₁, hrec⟩ := hs.record fun _ => none
  -- Once there is a record, it is kept.
  let ready (d : Guarded (Listing (Option (List Row)))) : Prop :=
    d.status = {} ∧
      (d.body.source = none ∨ F.delivered.error = none ∧ d.body.source = some F.delivered.rows)
  refine Index.ready_of_closed (I := S.recorded) ready ?_ ?_ ⟨rfl, .inl rfl⟩
  · intro d hd
    obtain ⟨_, b⟩ := d
    obtain ⟨hst, hsrc⟩ := hd
    subst hst
    obtain ⟨a, sets, ht⟩ := b.turn_eq .never
    exact Index.endures_of_turn (I := S.recorded) ⟨rfl, hsrc⟩ ht fun _ => ⟨rfl, hsrc⟩
  intro d hd h
  obtain ⟨_, ⟨source, current, sets⟩⟩ := d
  obtain ⟨hst, hsrc⟩ := hd
  subst hst
  unfold Delivered.reply
  cases he : F.delivered.error with
  | some e =>
      have hsrc : source = none := by
        rcases hsrc with hsrc | hsrc
        · exact hsrc
        · simp [he] at hsrc
      subst hsrc
      have probe : S.recorded.probe h (S.recorded.aim h ⟨none, current, sets⟩) .never =
          ⟨.failed e, ⟨none, none, []⟩, .never⟩ := by
        simp only [Scanner.recorded, hrec, Delivered.complete, he]
        rfl
      exact Index.answers_of_probe probe (by simp) (by simp)
  | none =>
      have look : S.recorded.probe h (S.recorded.aim h ⟨source, current, sets⟩) .never =
          S.recorded.probe h ⟨some F.delivered.rows, none, []⟩ .never := by
        rcases hsrc with hsrc | hsrc
        · change source = none at hsrc
          subst hsrc
          simp only [Scanner.recorded, hrec, Delivered.complete, he]
          rfl
        · change _ ∧ source = _ at hsrc
          obtain ⟨-, rfl⟩ := hsrc
          rfl
      cases hb : bindingsOf h F.delivered.rows with
      | nil =>
          have probe : S.recorded.probe h (S.recorded.aim h ⟨source, current, sets⟩) .never =
              ⟨.nothing, ⟨some F.delivered.rows, none, []⟩, .never⟩ := by
            rw [look]
            simp only [Scanner.recorded, hb]
            rfl
          exact Index.answers_of_probe probe (fun _ => ⟨rfl, .inr ⟨he, rfl⟩⟩)
            (by simp [Reply.ofSets, Reply.answer])
      | cons t rest =>
          have probe : S.recorded.probe h (S.recorded.aim h ⟨source, current, sets⟩) .never =
              ⟨.found (), ⟨some F.delivered.rows, some h, t :: rest⟩, .never⟩ := by
            rw [look]
            simp only [Scanner.recorded, hb]
            rfl
          refine Index.answers_of_probe probe (by simp [Reply.ofSets, Reply.answer]) fun _ => ?_
          exact Cursor.offers_listing (List.cons_ne_nil t rest) (fun _ => rfl)
            fun _ _ => ⟨rfl, .inr ⟨he, rfl⟩⟩

def Meaning.ofFeed (F : Feed) : Meaning :=
  ⟨F, F.delivered.reply⟩

/-! ## Sorted scanners -/

def Feed.sorted (store : QuadStore) (F : Feed) : Feed :=
  match (F.drain store.vet).error with
  | some e => .failed e
  | none => .ofRows ((F.drain store.vet).rows.mergeSort store.notAfter)

theorem Scanner.Shows.sets_ne_nil {S : Scanner} {F : Feed} {s : S.State} (hs : S.Shows F s)
    (vet : Handle → Option QueryError) {r : Row} (hr : r ∈ (F.drain vet).rows) : r.sets ≠ [] := by
  induction F generalizing s with
  | done => simp [Feed.drain] at hr
  | failed e => simp [Feed.drain] at hr
  | row h sets rest ih =>
      obtain ⟨s', hn, ho⟩ := hs
      obtain ⟨s'', _, hrest⟩ := ho.alternates
      unfold Feed.drain at hr
      cases hv : vet h with
      | some e => simp [hv] at hr
      | none =>
          simp only [hv, List.mem_cons] at hr
          rcases hr with rfl | hr
          · exact ho.ne_nil
          · exact ih _ (hrest rfl) hr

theorem Scanner.shows_rows {S : Scanner} {store : QuadStore} {rows : List Row}
    (hne : ∀ r ∈ rows, r.sets ≠ []) {current : Option Handle} {sets : List Tags} :
    (S.sorted store).Shows (.ofRows rows) ⟨{}, ⟨some rows, current, sets⟩⟩ := by
  induction rows generalizing current sets with
  | nil => exact ⟨_, Scanner.next_never rfl rfl⟩
  | cons r rows ih =>
      refine ⟨_, Scanner.next_never rfl rfl, ?_⟩
      exact Cursor.offers_listing (hne r (List.mem_cons_self ..)) (fun _ => rfl)
        fun _ _ => ih fun r hr => hne r (List.mem_cons_of_mem _ hr)

theorem Scanner.Shows.sorted {S : Scanner} {F : Feed} (hs : S.Shows F S.fresh)
    (store : QuadStore) : (S.sorted store).Shows (F.sorted store) (S.sorted store).fresh := by
  obtain ⟨s₁, hrec⟩ := hs.record store.vet
  unfold Feed.sorted
  cases he : (F.drain store.vet).error with
  | some e =>
      have hp : S.pullSorted store ⟨none, none, []⟩ .never =
          ⟨.failed e, ⟨none, none, []⟩, .never⟩ := by
        simp only [Scanner.pullSorted, hrec, Delivered.complete, he]
        rfl
      exact ⟨_, Scanner.next_never rfl hp⟩
  | none =>
      have hne : ∀ r ∈ (F.drain store.vet).rows.mergeSort store.notAfter, r.sets ≠ [] :=
        fun r hr => hs.sets_ne_nil store.vet ((List.mergeSort_perm _ _).mem_iff.1 hr)
      have hrows : (S.sorted store).Shows (.ofRows _) ⟨{}, ⟨some _, none, []⟩⟩ :=
        Scanner.shows_rows hne
      -- The first pull makes the rows and shows the first of them.
      refine Scanner.Shows.congr (Scanner.next_congr rfl rfl ?_) hrows
      show S.pullSorted store ⟨none, none, []⟩ .never =
        pullRow _ ⟨some _, none, []⟩ .never
      simp only [Scanner.pullSorted, hrec, Delivered.complete, he]
      show pullRow _ _ _ = _
      cases (F.drain store.vet).rows.mergeSort store.notAfter <;> rfl

end GraphQuery
