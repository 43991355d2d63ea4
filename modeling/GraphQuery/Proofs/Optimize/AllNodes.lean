import GraphQuery.Proofs.Optimize.Intersection

/-!
# All nodes in intersections

Intersecting with all nodes is no restriction on results. Once nested intersections are open and all
nodes are dropped, the rule for intersections has one of three outcomes.
-/

namespace GraphQuery

/-- How the tables of two plans are related that a pass turns one into the other: probes tell the
same, and so do scans if the order matters. -/
structure Table.Same (ordered : Bool) (T U : Table) : Prop where
  sets : T.sets = U.sets
  rows : ordered = true → T.rows = U.rows

namespace Table.Same

variable {ordered : Bool} {T U V : Table}

theorem refl (T : Table) : T.Same ordered T :=
  ⟨rfl, fun _ => rfl⟩

theorem of_eq (h : T = U) : T.Same ordered U :=
  h ▸ refl T

theorem trans (h : T.Same ordered U) (h' : U.Same ordered V) : T.Same ordered V :=
  ⟨h.sets.trans h'.sets, fun ho => (h.rows ho).trans (h'.rows ho)⟩

theorem eq (h : T.Same true U) : T = U :=
  eq_of_parts (h.rows rfl) fun x => congrFun h.sets x

end Table.Same

namespace Plan

open Table (meet meet_cons between_congr join_focus join_singleton)

variable {store : QuadStore}

theorem Tabular.proper (hs : store.Coherent) {p : Plan} (hp : p.Tabular store) :
    (p.table store).Proper (· ∈ store.nodes) :=
  ⟨agrees_table hs p, hp.safeRows hs⟩

/-! ## Dropping all nodes -/

theorem eq_all_of_isAll {p : Plan} (hp : p.isAll = true) : p = .all := by
  cases p <;> simp_all [isAll]

def restricting (ps : List Plan) : List Plan :=
  ps.filter fun p => !p.isAll

theorem restricting_cons (p : Plan) (ps : List Plan) :
    restricting (p :: ps) = if p.isAll then restricting ps else p :: restricting ps := by
  cases hp : p.isAll <;> simp [restricting, hp]

theorem dropAll_append (ordered : Bool) (driver i : Nat) (ps qs : List Plan)
    (acc : Intersection) :
    dropAll ordered driver i (ps ++ qs) acc =
      dropAll ordered driver (i + ps.length) qs (dropAll ordered driver i ps acc) := by
  induction ps generalizing i acc with
  | nil => rfl
  | cons p ps ih =>
      simp only [List.cons_append, dropAll, List.length_cons]
      rw [show i + (ps.length + 1) = i + 1 + ps.length by omega]
      split
      · exact ih _ _
      · exact ih _ _

/-- Away from the driver, and wherever the order does not matter, all nodes are dropped. -/
theorem operands_dropAll {ordered : Bool} {driver : Nat} (ps : List Plan) :
    ∀ {i : Nat} {acc : Intersection},
      (ordered = true → driver < i ∨ i + ps.length ≤ driver) →
      (dropAll ordered driver i ps acc).operands = acc.operands ++ restricting ps := by
  induction ps with
  | nil => simp [dropAll, restricting]
  | cons p ps ih =>
      intro i acc hi
      have hrest : ordered = true → driver < i + 1 ∨ i + 1 + ps.length ≤ driver := by
        intro ho
        have := hi ho
        simp only [List.length_cons] at this
        omega
      have hcond : (p.isAll && !(ordered && i = driver)) = p.isAll := by
        cases ho : ordered with
        | false => simp
        | true =>
            have := hi ho
            simp only [List.length_cons] at this
            simp [show i ≠ driver by omega]
      rw [dropAll, hcond, restricting_cons]
      split
      · rw [ih hrest]
      · rw [ih hrest]
        simp

theorem driver_dropAll {ordered : Bool} {driver : Nat} (ps : List Plan) :
    ∀ {i : Nat} {acc : Intersection}, driver < i ∨ i + ps.length ≤ driver →
      (dropAll ordered driver i ps acc).driver = acc.driver := by
  induction ps with
  | nil => simp [dropAll]
  | cons p ps ih =>
      intro i acc hi
      simp only [List.length_cons] at hi
      rw [dropAll]
      split
      · exact ih (by omega)
      · rw [ih (by omega), if_neg (by omega)]

/-- If the order matters the driver is kept, and what is dropped is around it. -/
theorem dropAll_ordered (ps qs : List Plan) (p : Plan) (c : Bool) :
    (dropAll true ps.length 0 (ps ++ p :: qs) ⟨[], 0, c⟩).operands =
        restricting ps ++ p :: restricting qs ∧
      (dropAll true ps.length 0 (ps ++ p :: qs) ⟨[], 0, c⟩).driver = (restricting ps).length := by
  have hbefore : (dropAll true ps.length 0 ps ⟨[], 0, c⟩).operands = restricting ps :=
    operands_dropAll ps fun _ => by omega
  have hkeep : ∀ acc : Intersection, dropAll true ps.length ps.length (p :: qs) acc =
      dropAll true ps.length (ps.length + 1) qs
        ⟨acc.operands ++ [p], acc.operands.length, acc.changed⟩ := by
    intro acc
    rw [dropAll]
    simp
  rw [dropAll_append, Nat.zero_add, hkeep, operands_dropAll qs fun _ => by omega,
    driver_dropAll qs (by omega), hbefore]
  simp

theorem mem_of_mem_dropAll {ordered : Bool} {driver : Nat} {p : Plan} (ps : List Plan) :
    ∀ {i : Nat} {acc : Intersection}, p ∈ (dropAll ordered driver i ps acc).operands →
      p ∈ acc.operands ∨ p ∈ ps := by
  induction ps with
  | nil => exact fun h => .inl h
  | cons q ps ih =>
      intro i acc hp
      rw [dropAll] at hp
      split at hp
      · exact (ih hp).imp_right (List.mem_cons_of_mem _)
      · rcases ih hp with hp | hp
        · rcases List.mem_append.1 hp with hp | hp
          · exact .inl hp
          · exact .inr (List.mem_singleton.1 hp ▸ List.mem_cons_self ..)
        · exact .inr (List.mem_cons_of_mem _ hp)

/-- All operands together have as much of a node as those that restrict. -/
theorem meet_restricting (hs : store.Coherent) {h : Handle} (hh : h ∈ store.nodes)
    (ps : List Plan) :
    meet ((restricting ps).map (table store)) h = meet (ps.map (table store)) h := by
  have hall : (table store .all).sets h = [.empty] :=
    if_pos ((hs.containsNode_iff h).2 hh)
  induction ps with
  | nil => rfl
  | cons p ps ih =>
      rw [restricting_cons, List.map_cons, meet_cons]
      by_cases hp : p.isAll = true
      · have hskip := Tags.product_skip [] [meet (ps.map (table store)) h]
        rw [if_pos hp, ih, eq_all_of_isAll hp, hall]
        simpa using hskip.symm
      · rw [if_neg hp, List.map_cons, meet_cons, ih]

theorem meet_eq_nil {ps : List Plan} {p : Plan} (hp : p ∈ ps) {h : Handle}
    (hnil : (p.table store).sets h = []) : meet (ps.map (table store)) h = [] := by
  refine Tags.product_eq_nil_iff.2 (List.mem_map.2 ⟨p.table store, ?_, hnil⟩)
  exact List.mem_map.2 ⟨p, hp, rfl⟩

section Intersection

variable {x : Intersection}

theorem mem_of_mem_simplifyIntersection {ordered : Bool} {p : Plan}
    (hp : p ∈ (simplifyIntersection ordered x).operands) : p ∈ x.operands ∨ p = .all := by
  unfold simplifyIntersection at hp
  split at hp
  · exact .inl hp
  · dsimp only at hp
    split at hp
    · exact .inr (List.mem_singleton.1 hp)
    · exact .inl ((mem_of_mem_dropAll x.operands hp).resolve_left (by simp))

theorem simplifyIntersection_of_short {ordered : Bool} (hx : x.operands.length ≤ 1) :
    simplifyIntersection ordered x = x :=
  if_pos hx

theorem simplifyIntersection_ordered {ps qs : List Plan} {p : Plan} {c : Bool}
    (hlong : ¬(ps ++ p :: qs).length ≤ 1) :
    (simplifyIntersection true ⟨ps ++ p :: qs, ps.length, c⟩).operands =
        restricting ps ++ p :: restricting qs ∧
      (simplifyIntersection true ⟨ps ++ p :: qs, ps.length, c⟩).driver =
        (restricting ps).length := by
  obtain ⟨hkept, hdriver⟩ := dropAll_ordered ps qs p c
  rw [simplifyIntersection, if_neg hlong]
  dsimp only
  rw [hkept, hdriver, if_neg (by simp)]
  exact ⟨rfl, Nat.min_eq_left (by simp)⟩

theorem simplifyIntersection_unordered (hlong : ¬x.operands.length ≤ 1) :
    (simplifyIntersection false x).operands =
        (if (restricting x.operands).isEmpty then [.all] else restricting x.operands) ∧
      (simplifyIntersection false x).driver < (simplifyIntersection false x).operands.length := by
  have hkept : (dropAll false x.driver 0 x.operands ⟨[], 0, x.changed⟩).operands =
      restricting x.operands := operands_dropAll x.operands (by simp)
  rw [simplifyIntersection, if_neg hlong]
  dsimp only
  rw [hkept]
  refine ⟨rfl, ?_⟩
  split
  · exact Nat.lt_succ_of_le (Nat.min_le_right _ _)
  · rename_i hne
    have hpos : 0 < (restricting x.operands).length :=
      List.length_pos_iff.2 fun hnil => hne (by simp [hnil])
    omega

/-- If the order matters the intersection keeps its table. -/
theorem join_simplifyIntersection (hs : store.Coherent)
    (hp : ∀ p ∈ x.operands, p.Tabular store) (hd : x.driver < x.operands.length) :
    (simplifyIntersection true x).driver < (simplifyIntersection true x).operands.length ∧
      Table.join ((simplifyIntersection true x).operands.map (table store))
          (simplifyIntersection true x).driver =
        Table.join (x.operands.map (table store)) x.driver := by
  by_cases hl : x.operands.length ≤ 1
  · rw [simplifyIntersection_of_short hl]
    exact ⟨hd, rfl⟩
  · obtain ⟨operands, driver, c⟩ := x
    obtain ⟨ps, p, qs, rfl, rfl⟩ := exists_focus hd
    obtain ⟨hops, hdriver⟩ := simplifyIntersection_ordered hl
    rw [hops, hdriver]
    refine ⟨by simp, ?_⟩
    have hproper := (hp p (by simp)).proper hs
    have hleft := join_focus ((restricting ps).map (table store))
      ((restricting qs).map (table store)) (p.table store)
    have hright := join_focus (ps.map (table store)) (qs.map (table store)) (p.table store)
    rw [List.length_map] at hleft hright
    rw [List.map_append, List.map_cons, List.map_append, List.map_cons, hleft, hright]
    refine Table.eq_of_parts (between_congr (fun r hr => ?_) fun r hr => ?_) fun h => ?_
    · exact meet_restricting hs (hproper.safe r hr).1 ps
    · exact meet_restricting hs (hproper.safe r hr).1 qs
    · simp only [Table.meet_append, meet_cons]
      by_cases hh : h ∈ store.nodes
      · rw [meet_restricting hs hh, meet_restricting hs hh]
      · have hnil : ∀ A B : List Tags,
            Tags.product [A, Tags.product [(p.table store).sets h, B]] = [] := by
          intro A B
          have : Tags.product [(p.table store).sets h, B] = [] :=
            Tags.product_eq_nil_iff.2 (by simp [hproper.sets_eq_nil hh])
          exact Tags.product_eq_nil_iff.2 (by simp [this])
        rw [hnil, hnil]

/-- Whether or not the order matters, all operands together have what they had. -/
theorem meet_simplifyIntersection (hs : store.Coherent)
    (hp : ∀ p ∈ x.operands, p.Tabular store) (hne : x.operands ≠ []) :
    (simplifyIntersection false x).operands ≠ [] ∧
      ∀ h, meet ((simplifyIntersection false x).operands.map (table store)) h =
        meet (x.operands.map (table store)) h := by
  by_cases hl : x.operands.length ≤ 1
  · rw [simplifyIntersection_of_short hl]
    exact ⟨hne, fun h => rfl⟩
  · rw [(simplifyIntersection_unordered hl).1]
    have hproper : ∀ q ∈ x.operands, ∀ h ∉ store.nodes, (q.table store).sets h = [] :=
      fun q hq h hh => ((hp q hq).proper hs).sets_eq_nil hh
    obtain ⟨q, hq⟩ := List.exists_mem_of_ne_nil _ hne
    by_cases he : (restricting x.operands).isEmpty = true
    · rw [if_pos he]
      refine ⟨by simp, fun h => ?_⟩
      by_cases hh : h ∈ store.nodes
      · have hnil : restricting x.operands = [] := by simpa using he
        rw [← meet_restricting hs hh x.operands, hnil]
        have : (table store .all).sets h = [.empty] := if_pos ((hs.containsNode_iff h).2 hh)
        simp [meet, this]
      · have hall : (table store .all).sets h = [] :=
          ((hereditary_tabular store).all.proper hs).sets_eq_nil hh
        rw [meet_eq_nil hq (hproper q hq h hh), meet_eq_nil (List.mem_singleton_self _) hall]
    · rw [if_neg he]
      refine ⟨by simpa using he, fun h => ?_⟩
      by_cases hh : h ∈ store.nodes
      · exact meet_restricting hs hh _
      · obtain ⟨q', hq'⟩ := List.exists_mem_of_ne_nil _ (by simpa using he)
        have hmem : q' ∈ x.operands := (List.mem_filter.1 hq').1
        rw [meet_eq_nil hq (hproper q hq h hh), meet_eq_nil hq' (hproper q' hmem h hh)]

end Intersection

/-! ## The rule for intersections -/

/-- The rule for intersections has one of three outcomes: nothing, if an operand is nothing; the
one operand that is left; or an intersection of those left, with the same driver if the order
matters. -/
theorem simplifyAnd_cases (store : QuadStore) (ordered : Bool) (driver : Nat)
    (xs : List Simplified) (t : Token) :
    let x := flattenIntersection driver 0 xs ⟨[], 0, false⟩
    let y := simplifyIntersection ordered x
    let p := (simplifyAnd store ordered driver xs t).1.1
    (p = .null ∧ (x.operands = [] ∨ ∃ q ∈ x.operands, q.isNull = true)) ∨
      ((x.operands ≠ [] ∧ ¬ ∃ q ∈ x.operands, q.isNull = true) ∧
        (y.operands = [p] ∨
          ∃ best, p = .and y.operands best ∧ (ordered = true → best = y.driver))) := by
  unfold simplifyAnd
  dsimp only
  generalize flattenIntersection driver 0 xs ⟨[], 0, false⟩ = x
  generalize simplifyIntersection ordered x = y
  by_cases hnull : x.operands.isEmpty || x.operands.any isNull
  · rw [if_pos hnull]
    exact .inl ⟨rfl, by simpa using hnull⟩
  · rw [if_neg hnull]
    refine .inr ⟨by simpa using hnull, ?_⟩
    generalize y.operands = operands
    split
    · exact .inl rfl
    · cases ordered with
      | true => exact .inr ⟨y.driver, rfl, fun _ => rfl⟩
      | false => exact .inr ⟨_, rfl, by simp⟩

/-- Whichever outcome the rule has, it keeps the probes, and the rows if the order matters. -/
theorem same_outcome (hs : store.Coherent) {ordered : Bool} {x : Intersection} {p : Plan}
    (hd : x.driver < x.operands.length) (hp : ∀ q ∈ x.operands, q.Tabular store)
    (hcases : (p = .null ∧ (x.operands = [] ∨ ∃ q ∈ x.operands, q.isNull = true)) ∨
      ((x.operands ≠ [] ∧ ¬ ∃ q ∈ x.operands, q.isNull = true) ∧
        ((simplifyIntersection ordered x).operands = [p] ∨
          ∃ best, p = .and (simplifyIntersection ordered x).operands best ∧
            (ordered = true → best = (simplifyIntersection ordered x).driver)))) :
    (Table.join (x.operands.map (table store)) x.driver).Same ordered (p.table store) := by
  have hsets : ∀ h, (Table.join (x.operands.map (table store)) x.driver).sets h =
      meet (x.operands.map (table store)) h :=
    Table.join_sets (by rw [List.length_map]; exact hd)
  rcases hcases with ⟨rfl, hnull⟩ | ⟨⟨hne, -⟩, hlast⟩
  · -- Where probes find nothing there are no rows either.
    obtain ⟨q, hq, hqn⟩ := hnull.resolve_left (List.ne_nil_of_length_pos (by omega))
    have hnil : ∀ h, (Table.join (x.operands.map (table store)) x.driver).sets h = [] :=
      fun h => (hsets h).trans (meet_eq_nil hq (by rw [eq_null_of_isNull hqn]; rfl))
    have hand : (Plan.and x.operands x.driver).Tabular store := (hereditary_tabular store).and.2 hp
    have hproper := hand.proper hs
    rw [table, tables_eq, show driver x.operands x.driver = x.driver from
      Nat.min_eq_left (by omega)] at hproper
    exact .of_eq (Table.eq_of_parts (hproper.rows_eq_nil hnil) hnil)
  · have htabular : ∀ q ∈ (simplifyIntersection ordered x).operands, q.Tabular store := by
      intro q hq
      rcases mem_of_mem_simplifyIntersection hq with hq | rfl
      · exact hp q hq
      · exact (hereditary_tabular store).all
    cases ordered with
    | true =>
        obtain ⟨hlt, hjoin⟩ := join_simplifyIntersection hs hp hd
        refine .of_eq (hjoin.symm.trans ?_)
        rcases hlast with hone | ⟨best, rfl, hbest⟩
        · have hsafe := (htabular p (by rw [hone]; exact List.mem_singleton_self _)).safeRows hs
          rw [hone] at hlt ⊢
          rw [show (simplifyIntersection true x).driver = 0 by simpa using hlt]
          exact join_singleton fun r hr => (hsafe r hr).2
        · rw [hbest rfl, table, tables_eq, driver, Nat.min_eq_left (by omega)]
    | false =>
        obtain ⟨hne', hmeet⟩ := meet_simplifyIntersection hs hp hne
        refine ⟨funext fun h => (hsets h).trans ((hmeet h).symm.trans ?_), by simp⟩
        rcases hlast with hone | ⟨best, rfl, -⟩
        · rw [hone]
          exact Tags.product_singleton _
        · have hpos := List.length_pos_iff.2 hne'
          rw [table, tables_eq, Table.join_sets]
          rw [List.length_map, driver]
          omega

/-- The rule for intersections keeps the probes, and the rows if the order matters. -/
theorem same_simplifyAnd (hs : store.Coherent) {ordered : Bool} {driver : Nat}
    {xs : List Simplified} (hd : driver < xs.length) (hsolid : ∀ x ∈ xs, x.1.Solid)
    (htabular : ∀ x ∈ xs, x.1.Tabular store)
    (hopened : ∀ p ∈ opened xs, p.Tabular store) (t : Token) :
    (Table.join (xs.map fun x => table store x.1) driver).Same ordered
      ((simplifyAnd store ordered driver xs t).1.1.table store) := by
  obtain ⟨pre, x, post, hsplit, hlen⟩ := exists_focus hd
  have hx : ∀ r ∈ (table store x.1).rows, r.sets ≠ [] := fun r hr =>
    ((htabular x (by simp [hsplit])).safeRows hs r hr).2
  have hjoin := join_opened (hsplit ▸ hsolid) hx
  have hdriver := driver_flatten pre post x
  have hops := operands_flatten driver 0 xs ⟨[], 0, false⟩
  rw [← hsplit, hlen] at hjoin hdriver
  rw [List.nil_append] at hops
  have hlt : (opened pre).length + x.1.leader < (opened xs).length := by
    have := leader_lt (hsolid x (by simp [hsplit]))
    rw [hsplit]
    simp only [opened, List.flatMap_append, List.flatMap_cons, List.length_append] at this ⊢
    omega
  rw [← hdriver, ← hops] at hjoin hlt
  rw [← hops] at hopened
  rw [← hjoin]
  exact same_outcome hs hlt hopened (simplifyAnd_cases store ordered driver xs t)

end Plan

end GraphQuery
