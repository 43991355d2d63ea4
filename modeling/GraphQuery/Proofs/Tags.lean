import GraphQuery.Tags.Combinations
import Mathlib.Data.List.Perm.Basic

/-!
# The algebra of binding sets

Overriding is associative with the empty binding set as its unit, and the combinations of several
lists are the product of these lists under overriding.
-/

namespace GraphQuery

namespace Tags

variable {t u v : Tags} {names : List String} {name m : String} {h x : Handle}

theorem lookup_eq_none {entries : List (String × Handle)} (hs : ∀ p ∈ entries, name < p.1) :
    entries.lookup name = none := by
  induction entries with
  | nil => rfl
  | cons p entries ih =>
      have hp := hs p (List.mem_cons_self ..)
      rw [lookup_cons_ite, if_neg fun he => String.lt_irrefl _ (he ▸ hp)]
      exact ih fun q hq => hs q (List.mem_cons_of_mem _ hq)

theorem mem_iff_lookup {entries : List (String × Handle)} (hs : entries.Pairwise (·.1 < ·.1)) :
    (name, h) ∈ entries ↔ entries.lookup name = some h := by
  induction entries with
  | nil => simp
  | cons p entries ih =>
      obtain ⟨n, x⟩ := p
      rw [List.pairwise_cons] at hs
      rw [lookup_cons_ite, List.mem_cons, ih hs.2]
      by_cases hn : name = n
      · subst hn
        simp [lookup_eq_none hs.1, eq_comm]
      · simp [hn]

theorem ext_get? (hg : ∀ n, t.get? n = u.get? n) : t = u := by
  have hlt : ∀ {v : Tags}, v.entries.Nodup := fun {v} =>
    v.sorted.imp fun {a b} hab (heq : a = b) => String.lt_irrefl _ (heq ▸ hab)
  have hperm : t.entries.Perm u.entries := by
    refine (List.perm_ext_iff_of_nodup hlt hlt).2 fun p => ?_
    rw [show p = (p.1, p.2) from rfl, mem_iff_lookup t.sorted, mem_iff_lookup u.sorted]
    exact iff_of_eq (congrArg (· = some p.2) (hg p.1))
  have heq : t.entries = u.entries :=
    hperm.eq_of_pairwise
      (fun a b _ _ hab hba => (String.lt_irrefl _ (String.lt_trans hab hba)).elim)
      t.sorted u.sorted
  cases t
  cases u
  simpa using heq

/-! ## Overriding -/

theorem get?_foldl_insert {entries : List (String × Handle)} (hs : entries.Pairwise (·.1 < ·.1)) :
    (entries.foldl (fun t p => t.insert p.1 p.2) t).get? m =
      (entries.lookup m).or (t.get? m) := by
  induction entries generalizing t with
  | nil => rfl
  | cons p entries ih =>
      obtain ⟨n, x⟩ := p
      rw [List.pairwise_cons] at hs
      rw [List.foldl_cons, ih hs.2, get?_insert, lookup_cons_ite]
      by_cases hm : m = n
      · subst hm
        simp [lookup_eq_none hs.1]
      · simp [hm]

@[simp] theorem get?_override (t u : Tags) (m : String) :
    (t.override u).get? m = (u.get? m).or (t.get? m) :=
  get?_foldl_insert u.sorted

@[simp] theorem override_empty (t : Tags) : t.override empty = t :=
  rfl

@[simp] theorem empty_override (t : Tags) : empty.override t = t :=
  ext_get? fun n => by simp

theorem override_assoc (t u v : Tags) : (t.override u).override v = t.override (u.override v) :=
  ext_get? fun n => by simp [Option.or_assoc]

/-- Among binding sets laid over one another, the last that binds a name decides. -/
theorem get?_foldl_override (ts : List Tags) (t : Tags) (name : String) :
    (ts.foldl override t).get? name = (ts.reverse.findSome? (·.get? name)).or (t.get? name) := by
  induction ts generalizing t with
  | nil => rfl
  | cons u ts ih =>
      rw [List.foldl_cons, ih, get?_override, List.reverse_cons, List.findSome?_append,
        Option.or_assoc]
      simp

/-! ## Names of one handle -/

@[simp] theorem get?_insertAll (t : Tags) (names : List String) (h : Handle) (m : String) :
    (t.insertAll names h).get? m = if m ∈ names then some h else t.get? m := by
  unfold insertAll
  induction names generalizing t with
  | nil => simp
  | cons name names ih =>
      rw [List.foldl_cons, ih]
      by_cases hm : m ∈ names
      · simp [hm]
      · by_cases hn : m = name
        · simp [hn]
        · simp [hm, hn]

theorem insertAll_nil (t : Tags) (h : Handle) : t.insertAll [] h = t :=
  rfl

theorem override_ofNames (t : Tags) (names : List String) (h : Handle) :
    t.override (ofNames names h) = t.insertAll names h :=
  ext_get? fun n => by
    by_cases hn : n ∈ names
    · simp [ofNames, hn]
    · simp [ofNames, hn]

/-! ## Products -/

/-- Every choice from these lists, the first list changing slowest; what is chosen from later lists
overrides what is chosen from earlier ones. -/
def product : List (List Tags) → List Tags
  | [] => [empty]
  | xs :: rest => xs.flatMap fun t => (product rest).map t.override

@[simp] theorem product_nil : product [] = [empty] :=
  rfl

theorem product_cons (xs : List Tags) (rest : List (List Tags)) :
    product (xs :: rest) = xs.flatMap fun t => (product rest).map t.override :=
  rfl

@[simp] theorem product_singleton (xs : List Tags) : product [xs] = xs := by
  simp [product]

theorem product_eq_nil_iff {sets : List (List Tags)} : product sets = [] ↔ [] ∈ sets := by
  induction sets with
  | nil => simp
  | cons xs rest ih =>
      rw [product_cons, List.flatMap_eq_nil_iff, List.mem_cons]
      simp only [List.map_eq_nil_iff, ih]
      cases xs with
      | nil => simp
      | cons x xs =>
          simp only [List.mem_cons, forall_eq_or_imp, reduceCtorEq, false_or]
          exact ⟨And.left, fun h => ⟨h, fun _ _ => h⟩⟩

theorem product_append (xs ys : List (List Tags)) :
    product (xs ++ ys) = (product xs).flatMap fun t => (product ys).map t.override := by
  induction xs with
  | nil => simp [show empty.override = id from funext empty_override]
  | cons x xs ih =>
      rw [List.cons_append, product_cons, ih, product_cons, List.flatMap_assoc]
      refine List.flatMap_congr fun t _ => ?_
      have hassoc : ∀ u : Tags, (t.override u).override = fun v => t.override (u.override v) :=
        fun u => funext (override_assoc t u)
      simp [List.map_flatMap, List.flatMap_map, hassoc, Function.comp_def]

theorem product_flatten (before after sets : List (List Tags)) :
    product (before ++ product sets :: after) = product (before ++ sets ++ after) := by
  rw [List.append_assoc, product_append, product_append before (sets ++ after), product_append sets,
    product_cons]

/-- Choosing from a list that holds only the empty binding set has no effect. -/
theorem product_skip (before after : List (List Tags)) :
    product (before ++ [empty] :: after) = product (before ++ after) := by
  have := product_flatten before after []
  simpa using this

/-! ## Rearranging products -/

theorem flatMap_swap {α β γ : Type} (xs : List α) (ys : List β) (f : α → β → List γ) :
    (xs.flatMap fun a => ys.flatMap (f a)).Perm
      (ys.flatMap fun b => xs.flatMap fun a => f a b) := by
  induction xs with
  | nil => simp
  | cons a xs ih =>
      simp only [List.flatMap_cons]
      exact (ih.append_left _).trans (List.flatMap_append_perm ys (f a) _)

theorem product_perm (before after : List (List Tags)) {xs ys : List Tags} (h : xs.Perm ys) :
    (product (before ++ xs :: after)).Perm (product (before ++ ys :: after)) := by
  simp only [product_append, product_cons]
  exact List.Perm.flatMap_left _ fun t _ => (h.flatMap_right _).map _

theorem product_flatMap {α : Type} (before after : List (List Tags)) (as : List α)
    (f : α → List Tags) :
    (as.flatMap fun a => product (before ++ f a :: after)).Perm
      (product (before ++ as.flatMap f :: after)) := by
  simp only [product_append, product_cons]
  refine (flatMap_swap as (product before) _).trans (List.Perm.of_eq ?_)
  refine List.flatMap_congr fun t _ => ?_
  rw [List.flatMap_assoc, List.map_flatMap]

end Tags

/-! ## Combinations are products -/

namespace Combinations

open Tags (product product_cons override_assoc)

variable {c d : Combinations} {sets : List (List Tags)}

theorem remainingTags_of_last (hc : c.advance = none) : c.remainingTags = [c.tags] := by
  rw [remainingTags]
  split
  · rfl
  · simp_all

theorem remainingTags_of_advance (hd : c.advance = some d) :
    c.remainingTags = c.tags :: d.remainingTags := by
  rw [remainingTags]
  split
  · simp_all
  · rename_i d' hd'
    obtain rfl := Option.some.inj (hd.symm.trans hd')
    rfl

theorem all_ne_nil (sets : List (List Tags)) : all sets ≠ [] := by
  rw [all, remainingTags]
  split <;> simp

def Valid (ws : List Wheel) : Prop :=
  ∀ w ∈ ws, w.position < w.sets.length

/-- The settings from the present one on: those that share the first wheel's position, and then all
those of its later positions. -/
def settingsFrom : List Wheel → List Tags
  | [] => [.empty]
  | w :: ws =>
      match w.sets.drop w.position with
      | [] => []
      | t :: later =>
          (settingsFrom ws).map t.override ++
            product (later :: ws.map Wheel.sets)

theorem foldl_override (t : Tags) (ws : List Wheel) :
    ws.foldl (fun t w => (w.current?.map t.override).getD t) t = t.override (tags ⟨ws⟩) := by
  induction ws generalizing t with
  | nil => rfl
  | cons w ws ih =>
      show ws.foldl _ ((w.current?.map t.override).getD t) =
        t.override (ws.foldl _ ((w.current?.map Tags.empty.override).getD .empty))
      rw [ih, ih]
      cases w.current? with
      | none => simp
      | some c => simp [override_assoc]

theorem tags_cons {w : Wheel} {t : Tags} (hw : w.current? = some t) (ws : List Wheel) :
    tags ⟨w :: ws⟩ = t.override (tags ⟨ws⟩) := by
  show ws.foldl _ ((w.current?.map Tags.empty.override).getD .empty) = _
  rw [hw, foldl_override]
  simp

theorem drop_position {w : Wheel} (hw : w.position < w.sets.length) :
    ∃ t, w.current? = some t ∧ w.sets.drop w.position = t :: w.sets.drop (w.position + 1) :=
  ⟨w.sets[w.position], List.getElem?_eq_getElem hw, List.drop_eq_getElem_cons hw⟩

theorem settingsFrom_reset {ws : List Wheel} (hw : ∀ w ∈ ws, w.sets ≠ []) :
    settingsFrom (ws.map Wheel.reset) = product (ws.map Wheel.sets) := by
  induction ws with
  | nil => rfl
  | cons w ws ih =>
      obtain ⟨t, later, hs⟩ := List.exists_cons_of_ne_nil (hw w (List.mem_cons_self ..))
      have hsets : (ws.map Wheel.reset).map Wheel.sets = ws.map Wheel.sets := by
        rw [List.map_map]
        rfl
      rw [List.map_cons, settingsFrom, List.map_cons, product_cons, hs,
        ih fun v hv => hw v (List.mem_cons_of_mem _ hv), hsets]
      simp [Wheel.reset, hs, product_cons]

theorem map_sets_advanceWheels : ∀ {ws vs : List Wheel}, advanceWheels ws = some vs →
    vs.map Wheel.sets = ws.map Wheel.sets
  | [], _, h => by simp [advanceWheels] at h
  | w :: ws, vs, h => by
      unfold advanceWheels at h
      split at h
      · rename_i ws' hws
        obtain rfl := Option.some.inj h
        simp [map_sets_advanceWheels hws]
      · obtain ⟨v, hv, rfl⟩ := Option.map_eq_some_iff.1 h
        simp [(Wheel.remaining_turn? hv).2, Wheel.reset, Function.comp_def]

theorem Valid.ne_nil {ws : List Wheel} (hv : Valid ws) : ∀ w ∈ ws, w.sets ≠ [] := by
  intro w hw hnil
  have := hv w hw
  simp [hnil] at this

theorem Valid.advanceWheels : ∀ {ws vs : List Wheel}, Valid ws →
    Combinations.advanceWheels ws = some vs → Valid vs
  | [], _, _, h => by simp [Combinations.advanceWheels] at h
  | w :: ws, vs, hv, h => by
      have hws : Valid ws := fun v hm => hv v (List.mem_cons_of_mem _ hm)
      unfold Combinations.advanceWheels at h
      split at h
      · rename_i ws' heq
        obtain rfl := Option.some.inj h
        have hws' := hws.advanceWheels heq
        intro v hm
        rcases List.mem_cons.1 hm with rfl | hm
        · exact hv _ (List.mem_cons_self ..)
        · exact hws' v hm
      · obtain ⟨w', hw', rfl⟩ := Option.map_eq_some_iff.1 h
        intro v hm
        rcases List.mem_cons.1 hm with rfl | hm
        · unfold Wheel.turn? at hw'
          split at hw'
          · obtain rfl := Option.some.inj hw'
            assumption
          · simp at hw'
        · obtain ⟨u, hu, rfl⟩ := List.mem_map.1 hm
          exact List.length_pos_iff.2 (hws.ne_nil u hu)

/-- The present setting comes first, and then the settings from the next one on. -/
theorem settingsFrom_eq : ∀ {ws : List Wheel}, Valid ws →
    settingsFrom ws = tags ⟨ws⟩ :: (advanceWheels ws).elim [] settingsFrom
  | [], _ => rfl
  | w :: ws, hv => by
      have hws : Valid ws := fun v hm => hv v (List.mem_cons_of_mem _ hm)
      obtain ⟨t, hc, hd⟩ := drop_position (hv w (List.mem_cons_self ..))
      rw [settingsFrom, hd, tags_cons hc, settingsFrom_eq hws]
      cases ha : advanceWheels ws with
      | some vs =>
          have hadvance : advanceWheels (w :: ws) = some (w :: vs) := by
            simp only [advanceWheels, ha]
          rw [hadvance]
          simp only [Option.elim_some, settingsFrom, hd, map_sets_advanceWheels ha, List.map_cons,
            List.cons_append]
      | none =>
          have hadvance : advanceWheels (w :: ws) = w.turn?.map (· :: ws.map Wheel.reset) := by
            simp only [advanceWheels, ha]
          rw [hadvance]
          have hsets : (ws.map Wheel.reset).map Wheel.sets = ws.map Wheel.sets := by
            rw [List.map_map]
            rfl
          simp only [Option.elim_none, List.map_cons, List.map_nil, List.cons_append,
            List.nil_append]
          congr 1
          by_cases hlt : w.position + 1 < w.sets.length
          · rw [Wheel.turn?, if_pos hlt]
            simp only [Option.map_some, Option.elim_some, settingsFrom,
              List.drop_eq_getElem_cons hlt, hsets, settingsFrom_reset hws.ne_nil, product_cons,
              List.flatMap_cons]
          · rw [Wheel.turn?, if_neg hlt, List.drop_eq_nil_iff.2 (by omega)]
            rfl

theorem remainingTags_eq (hv : Valid c.wheels) :
    c.remainingTags = settingsFrom c.wheels := by
  induction c using remainingTags.induct with
  | case1 c hc =>
      have ha : advanceWheels c.wheels = none := by
        cases h : advanceWheels c.wheels with
        | none => rfl
        | some vs => simp [advance, h] at hc
      rw [remainingTags_of_last hc, settingsFrom_eq hv, ha]
      rfl
  | case2 c d hc ih =>
      obtain ⟨vs, ha, rfl⟩ := Option.map_eq_some_iff.1 hc
      rw [remainingTags_of_advance hc, settingsFrom_eq hv, ha, ih (hv.advanceWheels ha)]
      rfl

theorem valid_ofSets (hs : [] ∉ sets) : Valid (ofSets sets).wheels := by
  intro w hw
  obtain ⟨xs, hx, rfl⟩ := List.mem_map.1 hw
  exact List.length_pos_iff.2 fun he => hs (he ▸ hx)

theorem map_reset_ofSets (sets : List (List Tags)) :
    (ofSets sets).wheels.map Wheel.reset = (ofSets sets).wheels := by
  simp [ofSets, Wheel.reset, Function.comp_def]

/-- The combinations of non-empty lists are their product. -/
theorem all_eq_product (hs : [] ∉ sets) : all sets = product sets := by
  have hv := valid_ofSets hs
  rw [all, remainingTags_eq hv, ← map_reset_ofSets, settingsFrom_reset hv.ne_nil]
  simp [ofSets, Function.comp_def]

end Combinations

end GraphQuery
