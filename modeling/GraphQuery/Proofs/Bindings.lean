import GraphQuery.Proofs.Tags

/-!
# What holds of every binding

A property of names with the handles that they are bound to. If it holds of all bindings in some
binding sets, it holds of all bindings in what overriding, combining and naming make of these.
-/

namespace GraphQuery

variable {P : String → Handle → Prop}

namespace Tags

variable {t u : Tags} {names : List String} {h : Handle} {sets : List (List Tags)}

/-- The property holds of every name with its handle. -/
def Every (P : String → Handle → Prop) (t : Tags) : Prop :=
  ∀ name h, t.get? name = some h → P name h

theorem every_empty : empty.Every P := by
  simp [Every]

theorem Every.override (ht : t.Every P) (hu : u.Every P) : (t.override u).Every P := by
  intro name h hn
  rw [get?_override, Option.or_eq_some_iff] at hn
  exact hn.elim (hu name h) fun hn => ht name h hn.2

theorem Every.insertAll (ht : t.Every P) (hnames : ∀ n ∈ names, P n h) :
    (t.insertAll names h).Every P := by
  intro name x hn
  rw [get?_insertAll] at hn
  split at hn
  · obtain rfl := Option.some.inj hn
    exact hnames name ‹_›
  · exact ht name x hn

def EveryIn (P : String → Handle → Prop) (sets : List (List Tags)) : Prop :=
  ∀ xs ∈ sets, ∀ t ∈ xs, t.Every P

theorem everyIn_cons {xs : List Tags} :
    EveryIn P (xs :: sets) ↔ (∀ t ∈ xs, t.Every P) ∧ EveryIn P sets :=
  List.forall_mem_cons

theorem EveryIn.append {sets' : List (List Tags)} (h : EveryIn P sets) (h' : EveryIn P sets') :
    EveryIn P (sets ++ sets') := by
  intro xs hxs
  exact (List.mem_append.1 hxs).elim (h xs) (h' xs)

theorem EveryIn.product (h : EveryIn P sets) : ∀ t ∈ product sets, t.Every P := by
  induction sets with
  | nil => simp [every_empty]
  | cons xs sets ih =>
      obtain ⟨hxs, hsets⟩ := everyIn_cons.1 h
      intro t ht
      obtain ⟨u, hu, ht⟩ := List.mem_flatMap.1 ht
      obtain ⟨v, hv, rfl⟩ := List.mem_map.1 ht
      exact (hxs u hu).override (ih hsets v hv)

end Tags

namespace Combinations

open Tags (EveryIn)

variable {c d : Combinations}

def sets (c : Combinations) : List (List Tags) :=
  c.wheels.map Wheel.sets

@[simp] theorem sets_ofSets (sets : List (List Tags)) : (ofSets sets).sets = sets := by
  simp [Combinations.sets, ofSets, Function.comp_def]

theorem sets_advance (h : c.advance = some d) : d.sets = c.sets := by
  obtain ⟨vs, hvs, rfl⟩ := Option.map_eq_some_iff.1 h
  exact map_sets_advanceWheels hvs

theorem every_tags (hc : EveryIn P c.sets) : c.tags.Every P := by
  obtain ⟨ws⟩ := c
  suffices h : ∀ t : Tags, t.Every P →
      (ws.foldl (fun t w => (w.current?.map t.override).getD t) t).Every P from
    h .empty Tags.every_empty
  induction ws with
  | nil => exact fun _ ht => ht
  | cons w ws ih =>
      obtain ⟨hw, hws⟩ := Tags.everyIn_cons.1 hc
      intro t ht
      rw [List.foldl_cons]
      refine ih hws _ ?_
      cases hcurrent : w.current? with
      | none => exact ht
      | some u => exact ht.override (hw u (List.mem_of_getElem? hcurrent))

theorem every_remainingTags (c : Combinations) (hc : EveryIn P c.sets) :
    ∀ t ∈ c.remainingTags, t.Every P := by
  induction c using remainingTags.induct with
  | case1 c hlast =>
      rw [remainingTags_of_last hlast]
      simpa using every_tags hc
  | case2 c d hnext ih =>
      rw [remainingTags_of_advance hnext]
      exact List.forall_mem_cons.2 ⟨every_tags hc, ih (sets_advance hnext ▸ hc)⟩

theorem every_all {sets : List (List Tags)} (h : EveryIn P sets) : ∀ t ∈ all sets, t.Every P :=
  every_remainingTags (ofSets sets) (by rwa [sets_ofSets])

end Combinations

end GraphQuery
