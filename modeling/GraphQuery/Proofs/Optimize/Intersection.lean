import GraphQuery.Proofs.Optimize.Rules

/-!
# Rules for intersections

The table of an intersection is seen with the driver in focus: its rows, between the products of the
operands before it and after it. Opening a nested intersection and dropping all nodes leave these
products as they are, so only the choice of another driver can change the rows.
-/

namespace GraphQuery

namespace Table

/-! ## The driver in focus -/

def between (before after : Handle → List Tags) (rows : List Row) : List Row :=
  boundRows (rows.map fun r =>
    ⟨r.handle, Tags.product [before r.handle, r.sets, after r.handle]⟩)

def meet (Ts : List Table) (h : Handle) : List Tags :=
  Tags.product (Ts.map fun T => T.sets h)

theorem product_focus (before after : List (List Tags)) (own : List Tags) :
    Tags.product [Tags.product before, own, Tags.product after] =
      Tags.product (before ++ own :: after) := by
  have h₁ := Tags.product_flatten [] [own, Tags.product after] before
  have h₂ := Tags.product_flatten (before ++ [own]) [] after
  simp only [List.nil_append, List.append_assoc, List.cons_append, List.append_nil] at h₁ h₂
  rw [h₁, h₂]

theorem meet_append (Ts Us : List Table) (h : Handle) :
    meet (Ts ++ Us) h = Tags.product [meet Ts h, meet Us h] := by
  have := product_focus (Ts.map fun T => T.sets h) (Us.map fun T => T.sets h) [.empty]
  have hskip := Tags.product_skip (Ts.map fun T => T.sets h) (Us.map fun T => T.sets h)
  have hskip' := Tags.product_skip [meet Ts h] [meet Us h]
  simp only [meet, List.map_append, List.singleton_append] at hskip' ⊢
  rw [← hskip, ← this, hskip']

theorem meet_cons (T : Table) (Ts : List Table) (h : Handle) :
    meet (T :: Ts) h = Tags.product [T.sets h, meet Ts h] := by
  have := meet_append [T] Ts h
  rwa [List.singleton_append, show meet [T] h = T.sets h from Tags.product_singleton _] at this

theorem join_focus (before after : List Table) (T : Table) :
    join (before ++ T :: after) before.length =
      ⟨between (meet before) (meet after) T.rows, meet (before ++ T :: after)⟩ := by
  have hget : (before ++ T :: after)[before.length]? = some T := by
    simp
  have herase : (before ++ T :: after).eraseIdx before.length = before ++ after := by
    rw [List.eraseIdx_append_of_length_le (Nat.le_refl _)]
    simp
  unfold join
  simp only [hget, herase]
  refine eq_of_parts (congrArg boundRows (List.map_congr_left fun r _ => ?_)) fun h => rfl
  unfold joinRow
  rw [insertIdx_eq_take_drop _ _ (by simp)]
  simp only [meet, product_focus]
  simp

theorem boundRows_boundRows {f g : Row → Row} (hf : ∀ r, r.sets = [] → (f r).sets = [])
    (rows : List Row) :
    boundRows ((boundRows (rows.map g)).map f) = boundRows (rows.map (f ∘ g)) := by
  induction rows with
  | nil => rfl
  | cons r rows ih =>
      rw [List.map_cons, List.map_cons, boundRows_cons, boundRows_cons]
      by_cases hg : (g r).sets = []
      · rw [if_pos hg, ih, Function.comp_apply, if_pos (hf _ hg)]
      · rw [if_neg hg, List.map_cons, boundRows_cons, ih]
        rfl

theorem between_between (before after before' after' : Handle → List Tags) (rows : List Row) :
    between before after (between before' after' rows) =
      between (fun h => Tags.product [before h, before' h])
        (fun h => Tags.product [after' h, after h]) rows := by
  unfold between
  rw [boundRows_boundRows]
  · refine congrArg boundRows (List.map_congr_left fun r _ => ?_)
    have h₁ := Tags.product_flatten [before r.handle] [after r.handle]
      [before' r.handle, r.sets, after' r.handle]
    have h₂ := product_focus [before r.handle, before' r.handle] [after' r.handle, after r.handle]
      r.sets
    simp only [Function.comp_apply, Row.mk.injEq, true_and]
    exact h₁.trans h₂.symm
  · intro r hr
    exact Tags.product_eq_nil_iff.2 (by simp [hr])

theorem between_congr {before after before' after' : Handle → List Tags} {rows : List Row}
    (hb : ∀ r ∈ rows, before r.handle = before' r.handle)
    (ha : ∀ r ∈ rows, after r.handle = after' r.handle) :
    between before after rows = between before' after' rows := by
  refine congrArg boundRows (List.map_congr_left fun r hr => ?_)
  rw [hb r hr, ha r hr]

theorem between_empty {rows : List Row} (hne : ∀ r ∈ rows, r.sets ≠ []) :
    between (meet []) (meet []) rows = rows := by
  have hmap : ∀ r : Row, (⟨r.handle, Tags.product [meet [] r.handle, r.sets, meet [] r.handle]⟩ :
      Row) = r := by
    intro r
    have := product_focus [] [] r.sets
    simp only [List.nil_append, Tags.product_singleton] at this
    exact congrArg (Row.mk r.handle) this
  unfold between
  rw [List.map_congr_left fun r _ => hmap r, List.map_id', boundRows, List.filter_eq_self]
  exact fun r hr => by simpa using hne r hr

theorem join_singleton {T : Table} (hne : ∀ r ∈ T.rows, r.sets ≠ []) : join [T] 0 = T := by
  have := join_focus [] [] T
  rw [between_empty hne] at this
  refine this.trans (eq_of_parts rfl fun h => ?_)
  exact Tags.product_singleton _

/-- A join depends on the probes of the operands and on the rows of the driver. -/
theorem join_congr {Ts Us : List Table} {d : Nat} (hs : Ts.map sets = Us.map sets)
    (hr : Ts[d]?.map rows = Us[d]?.map rows) : join Ts d = join Us d := by
  have hsets : ∀ h, (Ts.map fun T => T.sets h) = Us.map fun T => T.sets h := by
    intro h
    have := congrArg (List.map fun s : Handle → List Tags => s h) hs
    simpa [Function.comp_def] using this
  have hothers : ∀ h, ((Ts.eraseIdx d).map fun T => T.sets h) =
      (Us.eraseIdx d).map fun T => T.sets h := by
    intro h
    rw [← List.eraseIdx_map, ← List.eraseIdx_map, hsets]
  unfold join
  cases hT : Ts[d]? with
  | none =>
      cases hU : Us[d]? with
      | none => rfl
      | some U => simp [hT, hU] at hr
  | some T =>
      cases hU : Us[d]? with
      | none => simp [hT, hU] at hr
      | some U =>
          have hrows : T.rows = U.rows := by simpa [hT, hU] using hr
          refine eq_of_parts ?_ fun h => congrArg Tags.product (hsets h)
          simp only [hrows]
          refine congrArg boundRows (List.map_congr_left fun r _ => ?_)
          simp only [joinRow, hothers]

theorem join_sets {Ts : List Table} {d : Nat} (hd : d < Ts.length) (h : Handle) :
    (join Ts d).sets h = meet Ts h := by
  unfold join
  rw [List.getElem?_eq_getElem hd]
  rfl

end Table

namespace Plan

open Table (meet meet_append meet_cons between between_congr between_between join_focus)

variable {store : QuadStore}

/-! ## Opening nested intersections -/

mutual

/-- No intersection that a rule can open is empty. -/
def Solid : Plan → Prop
  | .and ps _ => ps ≠ [] ∧ AllSolid ps
  | .or ps => AllSolid ps
  | _ => True

def AllSolid : List Plan → Prop
  | [] => True
  | p :: ps => Solid p ∧ AllSolid ps

end

theorem allSolid_iff {ps : List Plan} : AllSolid ps ↔ ∀ p ∈ ps, p.Solid := by
  induction ps with
  | nil => simp [AllSolid]
  | cons p ps ih => simp [AllSolid, ih]

/-- The operands that a plan stands for as an operand of an intersection. -/
def conjuncts : Plan → List Plan
  | .and ps _ => ps
  | p => [p]

def leader : Plan → Nat
  | .and ps k => driver ps k
  | _ => 0

theorem conjuncts_ne_nil {p : Plan} (hp : p.Solid) : p.conjuncts ≠ [] := by
  cases p with
  | and ps k => exact hp.1
  | _ => simp [conjuncts]

theorem leader_lt {p : Plan} (hp : p.Solid) : p.leader < p.conjuncts.length := by
  have hne := conjuncts_ne_nil hp
  cases p with
  | and ps k =>
      have := List.length_pos_iff.2 hne
      simp only [leader, conjuncts, driver] at this ⊢
      omega
  | _ => simp [leader, conjuncts]

/-- A plan has the table of the intersection of its conjuncts. -/
theorem join_conjuncts {p : Plan} (hne : ∀ r ∈ (p.table store).rows, r.sets ≠ []) :
    Table.join (p.conjuncts.map (table store)) p.leader = p.table store := by
  cases p with
  | and ps k =>
      show Table.join (ps.map (table store)) (driver ps k) =
        Table.join (tables store ps) (driver ps k)
      rw [tables_eq]
  | _ => exact Table.join_singleton hne

def opened (xs : List Simplified) : List Plan :=
  xs.flatMap fun x => x.1.conjuncts

theorem flattenIntersection_append (driver i : Nat) (xs ys : List Simplified)
    (acc : Intersection) :
    flattenIntersection driver i (xs ++ ys) acc =
      flattenIntersection driver (i + xs.length) ys (flattenIntersection driver i xs acc) := by
  induction xs generalizing i acc with
  | nil => rfl
  | cons x xs ih =>
      obtain ⟨p, c⟩ := x
      simp only [List.cons_append, flattenIntersection, List.length_cons]
      rw [show i + (xs.length + 1) = i + 1 + xs.length by omega]
      split
      · exact ih _ _
      · exact ih _ _

theorem flattenIntersection_cons (driver i : Nat) (x : Simplified) (xs : List Simplified)
    (acc : Intersection) :
    ∃ c, flattenIntersection driver i (x :: xs) acc =
      flattenIntersection driver (i + 1) xs
        ⟨acc.operands ++ x.1.conjuncts,
          if i = driver then acc.operands.length + x.1.leader else acc.driver, c⟩ := by
  obtain ⟨p, c⟩ := x
  cases p <;> exact ⟨_, rfl⟩

theorem operands_flatten (driver i : Nat) (xs : List Simplified) (acc : Intersection) :
    (flattenIntersection driver i xs acc).operands = acc.operands ++ opened xs := by
  induction xs generalizing i acc with
  | nil => simp [flattenIntersection, opened]
  | cons x xs ih =>
      obtain ⟨c, hc⟩ := flattenIntersection_cons driver i x xs acc
      rw [hc, ih]
      simp [opened]

theorem driver_flatten_of_lt {driver i : Nat} (hi : driver < i) (xs : List Simplified)
    (acc : Intersection) : (flattenIntersection driver i xs acc).driver = acc.driver := by
  induction xs generalizing i acc with
  | nil => rfl
  | cons x xs ih =>
      obtain ⟨c, hc⟩ := flattenIntersection_cons driver i x xs acc
      rw [hc, ih (by omega), if_neg (by omega)]

/-- The driver of the flattened intersection is that of the operand that drove. -/
theorem driver_flatten (xs ys : List Simplified) (x : Simplified) :
    (flattenIntersection xs.length 0 (xs ++ x :: ys) ⟨[], 0, false⟩).driver =
      (opened xs).length + x.1.leader := by
  rw [flattenIntersection_append, Nat.zero_add]
  obtain ⟨c, hc⟩ := flattenIntersection_cons xs.length xs.length x ys
    (flattenIntersection xs.length 0 xs ⟨[], 0, false⟩)
  rw [hc, driver_flatten_of_lt (Nat.lt_succ_self _), if_pos rfl, operands_flatten]
  rfl

theorem exists_focus {α : Type} {xs : List α} {k : Nat} (hk : k < xs.length) :
    ∃ pre x post, xs = pre ++ x :: post ∧ pre.length = k :=
  ⟨xs.take k, xs[k], xs.drop (k + 1), by simp, by simp; omega⟩

/-- Opening intersections leaves what all operands together have. -/
theorem meet_opened {xs : List Simplified} (hs : ∀ x ∈ xs, x.1.Solid) (h : Handle) :
    meet ((opened xs).map (table store)) h = meet (xs.map fun x => table store x.1) h := by
  have hone : ∀ p : Plan, p.Solid →
      meet (p.conjuncts.map (table store)) h = (table store p).sets h := by
    intro p hp
    cases p with
    | and ps k =>
        have hlt := leader_lt hp
        show meet (ps.map (table store)) h = (Table.join (tables store ps) (driver ps k)).sets h
        rw [tables_eq, Table.join_sets (by rw [List.length_map]; exact hlt)]
    | _ => exact Tags.product_singleton _
  induction xs with
  | nil => rfl
  | cons x xs ih =>
      have hrest := ih fun y hy => hs y (List.mem_cons_of_mem _ hy)
      rw [List.map_cons, meet_cons, ← hrest, ← hone x.1 (hs x (List.mem_cons_self ..)),
        ← meet_append, ← List.map_append]
      rfl

/-- Opening intersections leaves the table, if the driver is the driver of what drove. -/
theorem join_opened {xs ys : List Simplified} {x : Simplified}
    (hs : ∀ y ∈ xs ++ x :: ys, y.1.Solid)
    (hne : ∀ r ∈ (table store x.1).rows, r.sets ≠ []) :
    Table.join ((opened (xs ++ x :: ys)).map (table store)) ((opened xs).length + x.1.leader) =
      Table.join ((xs ++ x :: ys).map fun y => table store y.1) xs.length := by
  have hx : x.1.Solid := hs x (by simp)
  have hxs : ∀ y ∈ xs, y.1.Solid := fun y hy => hs y (by simp [hy])
  have hys : ∀ y ∈ ys, y.1.Solid := fun y hy => hs y (by simp [hy])
  -- The conjuncts of the operand that drives, around its leader.
  have hl : x.1.leader < x.1.conjuncts.length := leader_lt hx
  obtain ⟨before, q, after, hsplit, hlen⟩ := exists_focus hl
  have hxt := join_conjuncts hne
  rw [hsplit, List.map_append, List.map_cons, ← hlen,
    show before.length = (before.map (table store)).length by simp, join_focus] at hxt
  have hopened : (opened (xs ++ x :: ys)).map (table store) =
      ((opened xs ++ before).map (table store)) ++ table store q ::
        ((after ++ opened ys).map (table store)) := by
    simp [opened, hsplit]
  have hleft := join_focus ((opened xs ++ before).map (table store))
    ((after ++ opened ys).map (table store)) (table store q)
  have hright := join_focus (xs.map fun y => table store y.1) (ys.map fun y => table store y.1)
    (table store x.1)
  rw [← hopened, List.length_map, List.length_append, hlen] at hleft
  rw [← List.map_cons (f := fun y : Simplified => table store y.1), ← List.map_append,
    List.length_map] at hright
  rw [hleft, hright]
  refine Table.eq_of_parts ?_ fun h => ?_
  · have hrows : (table store x.1).rows = _ := congrArg Table.rows hxt.symm
    simp only [hrows, between_between]
    refine between_congr (fun r _ => ?_) fun r _ => ?_
    · rw [List.map_append, meet_append, meet_opened hxs]
    · rw [List.map_append, meet_append, meet_opened hys]
  · exact meet_opened hs h

end Plan

end GraphQuery
