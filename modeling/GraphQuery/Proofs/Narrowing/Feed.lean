import GraphQuery.Path.Compile
import GraphQuery.Proofs.Meaning
import GraphQuery.Proofs.Tags
import GraphQuery.Proofs.Turning.Browse

/-!
# What narrowing sees

Operations that only drop results pull past those that they drop without turning at them. Those that
they keep they show with all their binding sets, and either hand the turns at them on or have made
them all before. So whatever is seen of the narrowed feed can be seen of the feed itself, by turning
more at some results and less at others.
-/

namespace GraphQuery

structure Row.Begins (r r' : Row) : Prop where
  handle : r.handle = r'.handle
  sets : r.sets <+: r'.sets

namespace Feed

/-- A feed that keeps some results of another and drops the others without a turn. Where `k` turns
are made at a result kept, `turned k` are made at the result itself, no fewer. The feed may fail on
the way. -/
inductive Narrows : Feed → Feed → Prop
  | done : Narrows .done .done
  | failed (F : Feed) (e : QueryError) : Narrows F (.failed e)
  | keep {h : Handle} {sets : List Tags} {rest rest' : Nat → Feed} (turned : Nat → Nat)
      (hle : ∀ k, k ≤ sets.length - 1 → k ≤ turned k ∧ turned k ≤ sets.length - 1)
      (hrest : ∀ k, k ≤ sets.length - 1 → Narrows (rest (turned k)) (rest' k)) :
      Narrows (.row h sets rest) (.row h sets rest')
  | drop {h : Handle} {sets : List Tags} {rest : Nat → Feed} {G : Feed} :
      Narrows (rest 0) G → Narrows (.row h sets rest) G

variable {F G : Feed}

/-- Whatever is seen of the narrowed feed is seen of the feed, with other turns. -/
theorem Narrows.seen (hG : Narrows F G) (turns : Nat → Nat) :
    ∃ turns', ∀ r ∈ (G.browsed turns).rows, ∃ r' ∈ (F.browsed turns').rows, r.Begins r' := by
  induction hG generalizing turns with
  | done => exact ⟨turns, fun r hr => by cases hr⟩
  | failed F e => exact ⟨turns, fun r hr => by cases hr⟩
  | @drop h sets rest G _ ih =>
      obtain ⟨turns', hseen⟩ := ih turns
      refine ⟨turningFirst 0 turns', fun r hr => ?_⟩
      obtain ⟨r', hr', hbegins⟩ := hseen r hr
      rw [browsed_turningFirst (Nat.zero_le _)]
      exact ⟨r', List.mem_cons_of_mem _ hr', hbegins⟩
  | @keep h sets rest rest' turned hle _ ih =>
      have hk : min (turns 0) (sets.length - 1) ≤ sets.length - 1 := Nat.min_le_right ..
      obtain ⟨hfewer, hlast⟩ := hle _ hk
      obtain ⟨turns', hseen⟩ := ih _ hk fun i => turns (i + 1)
      refine ⟨turningFirst (turned (min (turns 0) (sets.length - 1))) turns', fun r hr => ?_⟩
      rw [browsed_turningFirst hlast]
      rcases List.mem_cons.1 hr with rfl | hr
      · refine ⟨_, List.mem_cons_self .., rfl, ?_⟩
        have htake : sets.take (turns 0 + 1) =
            (sets.take (turned (min (turns 0) (sets.length - 1)) + 1)).take (turns 0 + 1) := by
          rw [List.take_take, List.take_eq_take_iff]
          omega
        rw [Row.upTo, Row.upTo, htake]
        exact List.take_prefix _ _
      · obtain ⟨r', hr', hbegins⟩ := hseen r hr
        exact ⟨r', List.mem_cons_of_mem _ hr', hbegins⟩

/-! ## What narrows a feed -/

theorem narrows_sieve {μ : Type} (verdicts : Verdicts Unit μ) (F : Feed) (m : μ) :
    Narrows F (F.sieve verdicts m) := by
  induction F generalizing m with
  | done => exact .done
  | failed e => exact .failed _ e
  | row h sets rest ih =>
      unfold Feed.sieve Feed.sift
      cases (verdicts h m).1 with
      | found u => exact .keep id (fun k hk => ⟨Nat.le_refl k, hk⟩) fun k _ => ih k _
      | nothing => exact .drop (ih 0 _)
      | failed e => exact .failed _ e

theorem Narrows.refl (F : Feed) : Narrows F F := by
  induction F with
  | done => exact .done
  | failed e => exact .failed _ e
  | row h sets rest ih => exact .keep id (fun k hk => ⟨Nat.le_refl k, hk⟩) fun k _ => ih k

theorem narrows_skip (F : Feed) (n : Nat) : Narrows F (F.skip n) := by
  induction n generalizing F with
  | zero => exact .refl F
  | succ n ih =>
      cases F with
      | done => exact .done
      | failed e => exact .failed _ e
      | row h sets rest => exact .drop (ih (rest 0))

end Feed

def Reply.Plain (r : Reply) : Prop :=
  r = .absent ∨ (∃ e, r = .failure e) ∨ r = .ofSets [.empty]

theorem Reply.plain_ofMem (mem : Handle → Bool) (h : Handle) : (Reply.ofMem mem h).Plain := by
  unfold Reply.ofMem
  split
  · exact .inr (.inr rfl)
  · exact .inl rfl

theorem Reply.Plain.sieve {reply : Handle → Reply} {h : Handle} (hr : (reply h).Plain)
    (verdict : Handle → Answer Unit) : (Reply.sieve verdict reply h).Plain := by
  unfold Reply.sieve
  split
  · exact hr
  · exact .inl rfl
  · exact .inr (.inl ⟨_, rfl⟩)

/-- Joining with what binds nothing narrows a feed. All turns at a result are made before it is
shown. -/
theorem Scanner.Shows.narrows_join {S : Scanner} {F : Feed} {s : S.State} (hs : S.Shows F s)
    {reply : Handle → Reply} (hplain : ∀ h, (reply h).Plain) :
    F.Narrows (F.join [reply] 0) := by
  induction F generalizing s with
  | done => exact .done
  | failed e => exact .failed _ e
  | row h sets rest ih =>
      obtain ⟨s', -, ho⟩ := hs
      obtain ⟨s'', -, hlast⟩ := ho.alternates
      have hdropped := ih 0 ho.start
      have hkept := ih (sets.length - 1) (hlast rfl)
      have hat : replyAt [reply] 0 = reply := rfl
      rcases hplain h with hr | ⟨e, hr⟩ | hr
      · have hjoin : (Feed.row h sets rest).join [reply] 0 = (rest 0).join [reply] 0 := by
          simp [Feed.join, Feed.sift, consult, List.range_succ, hat, hr]
        rw [hjoin]
        exact .drop hdropped
      · have hjoin : (Feed.row h sets rest).join [reply] 0 = .failed e := by
          simp [Feed.join, Feed.sift, consult, List.range_succ, hat, hr]
        rw [hjoin]
        exact .failed _ e
      · have hall : Combinations.all [sets, [.empty]] = sets := by
          rw [Combinations.all_eq_product (by simpa using ho.ne_nil.symm)]
          exact (Tags.product_skip [sets] []).trans (Tags.product_singleton sets)
        have hjoin : (Feed.row h sets rest).join [reply] 0 =
            .row h sets fun _ => (rest (sets.length - 1)).join [reply] 0 := by
          have hgathered : gathered h [reply] = .found [[.empty]] := by
            simp [gathered, hr, Reply.ofSets, Answer.map]
          have hconsult : consult [reply] h (List.range 1) = .found () := by
            simp [consult, List.range_succ, hat, hr, Reply.ofSets, Reply.answer]
          rw [Feed.join, Feed.sift]
          simp only [List.length_singleton, hconsult, joinedRow, hgathered, List.insertIdx_zero,
            hall]
          rfl
        rw [hjoin]
        exact .keep (fun _ => sets.length - 1) (fun k hk => ⟨hk, Nat.le_refl _⟩) fun _ _ => hkept

/-! ## Operations that narrow -/

/-- The operation keeps the results that it shows as they are. -/
def Op.Narrows : Op → Prop
  | .skip _ | .unique | .except _ | .constrain _ | .filter _ => True
  | _ => False

namespace Path

theorem narrows_lower (target : Target) (ctx : LabelContext) (p : Plan) {op : Op}
    (hop : op.Narrows) :
    (p.meaning target.store).feed.Narrows
      (((lower target ctx p op).1).meaning target.store).feed := by
  cases op with
  | skip n =>
      rw [lower]
      exact Feed.narrows_skip _ n
  | unique =>
      rw [lower]
      exact Feed.narrows_sieve .firsts _ []
  | constrain c =>
      rw [lower]
      exact Feed.narrows_sieve _ _ ()
  | filter test =>
      rw [lower]
      exact Feed.narrows_sieve _ _ ()
  | except other =>
      rw [lower]
      refine (p.realizes target.store).shows.narrows_join fun h => ?_
      simp only [Plan.meaningOn, Meaning.sieve, Meaning.leaf]
      exact (Reply.plain_ofMem _ h).sieve _
  | _ => exact hop.elim

/-- After some operations another one is lowered onto the plan of these. -/
theorem exists_lowered (target : Target) (ctx : LabelContext) (p : Plan) (ops : List Op) :
    ∃ ctx', ∀ rest, buildOps target ctx p (ops ++ rest) =
      buildOps target ctx' (buildOps target ctx p ops) rest := by
  induction ops generalizing ctx p with
  | nil => exact ⟨ctx, fun rest => by rw [List.nil_append, buildOps]⟩
  | cons op ops ih =>
      obtain ⟨ctx', hrest⟩ := ih (lower target ctx p op).2 (lower target ctx p op).1
      refine ⟨ctx', fun rest => ?_⟩
      rw [List.cons_append, buildOps, buildOps]
      exact hrest rest

end Path

end GraphQuery
