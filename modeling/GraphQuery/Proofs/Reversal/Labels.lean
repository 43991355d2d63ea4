import GraphQuery.Proofs.Reversal.Itinerary

/-!
# Label contexts that stay with their steps

Reversal takes the scopes of steps from the operations of one path; it does not look into the paths
that these follow, nor does it tell a lifted label context from that of the caller. Still the
reverse takes the same legs back where neither makes a difference: where the paths that are followed
put all their steps under label contexts of their own, and so does the path itself, or there is no
label context to start with.
-/

namespace GraphQuery

mutual

def Op.LabelsItsSteps : Op → Prop
  | .follow p _ => p.LabelsItsSteps
  | _ => True

def Path.LabelsItsSteps : Path → Prop
  | .mk _ ops =>
      (∀ x ∈ Path.scopedOps none ops, x.1.isStep = true → x.2.isSome = true) ∧
        Path.OpsLabelTheirSteps ops

def Path.OpsLabelTheirSteps : List Op → Prop
  | [] => True
  | op :: ops => op.LabelsItsSteps ∧ Path.OpsLabelTheirSteps ops

end

mutual

def Op.KeepsLabels (lifted : Bool) : Op → Prop
  | .follow p _ => p.KeepsLabels lifted
  | _ => True

/-- Reversal keeps the label contexts of the path with the steps that they governed. The path puts
none in force, and so it is with the paths that it follows; or these label their own steps, and the
path does, unless label contexts are lifted where it starts. -/
def Path.KeepsLabels (lifted : Bool) : Path → Prop
  | .mk _ ops =>
      ((∀ via names, .labelContext via names ∉ ops) ∧ Path.OpsKeepLabels lifted ops) ∨
        (Path.OpsLabelTheirSteps ops ∧
          (lifted = true ∨ ∀ x ∈ Path.scopedOps none ops, x.1.isStep = true → x.2.isSome = true))

def Path.OpsKeepLabels (lifted : Bool) : List Op → Prop
  | [] => True
  | op :: ops => op.KeepsLabels lifted ∧ Path.OpsKeepLabels lifted ops

end

def Governing.ofScope : Scope → Governing
  | none => .own none
  | some (via, names) => .own (LabelScope.after none (.labelContext via names))

namespace Path

variable {g : Governing} {p : Path}

theorem opsLabelTheirSteps_iff {ops : List Op} :
    OpsLabelTheirSteps ops ↔ ∀ op ∈ ops, op.LabelsItsSteps := by
  induction ops with
  | nil => simp [OpsLabelTheirSteps]
  | cons op ops ih => simp [OpsLabelTheirSteps, ih]

theorem opsKeepLabels_iff {lifted : Bool} {ops : List Op} :
    OpsKeepLabels lifted ops ↔ ∀ op ∈ ops, op.KeepsLabels lifted := by
  induction ops with
  | nil => simp [OpsKeepLabels]
  | cons op ops ih => simp [OpsKeepLabels, ih]

def Settled (op : Op) : Prop :=
  ∀ g : Governing, legs g op = legs (.own none) op

theorem legs_labelContext (via : Via) (names : List String) :
    legs g (.labelContext via names) = [] := by
  rw [legs]

theorem scopedOps_labelContext (scope : Scope) (via : Via) (names : List String)
    (ops : List Op) : ∃ scope', scopedOps scope (.labelContext via names :: ops) =
      scopedOps scope' ops ∧ g.after (.labelContext via names) = .ofScope scope' := by
  cases via with
  | all => exact ⟨none, rfl, rfl⟩
  | values values => exact ⟨some (.values values, names), rfl, rfl⟩
  | path p => exact ⟨some (.path p, names), rfl, rfl⟩

theorem scopedOps_of_ne {op : Op} (hop : ∀ via names, op ≠ .labelContext via names)
    (scope : Scope) (ops : List Op) :
    scopedOps scope (op :: ops) =
      (op, if op.isStep then scope else none) :: scopedOps scope ops := by
  cases op with
  | labelContext via names => exact (hop via names rfl).elim
  | _ => rfl

/-- Steps are read in their scopes; on what is no step nothing depends. -/
theorem itineraryOfOps_eq {ops : List Op} {scope : Scope}
    (hsettled : ∀ op ∈ ops, op.isStep = false → Settled op)
    (hg : g = .ofScope scope ∨ (scope = none ∧
      ∀ x ∈ scopedOps scope ops, x.1.isStep = true → x.2.isSome = true)) :
    itineraryOfOps g ops =
      (scopedOps scope ops).flatMap fun x => legs (.ofScope x.2) x.1 := by
  induction ops generalizing g scope with
  | nil => rw [itineraryOfOps, scopedOps, List.flatMap_nil]
  | cons op ops ih =>
      have hrest := fun o ho => hsettled o (List.mem_cons_of_mem _ ho)
      rw [itineraryOfOps]
      by_cases hlabel : ∃ via names, op = .labelContext via names
      · obtain ⟨via, names, rfl⟩ := hlabel
        obtain ⟨scope', hscoped, hafter⟩ := scopedOps_labelContext (g := g) scope via names ops
        rw [hscoped, hafter, legs_labelContext, List.nil_append]
        exact ih hrest (.inl rfl)
      · have hop : ∀ via names, op ≠ .labelContext via names := fun via names heq =>
          hlabel ⟨via, names, heq⟩
        rw [scopedOps_of_ne hop] at hg ⊢
        rw [Governing.after_of_ne hop, List.flatMap_cons,
          ih hrest (hg.imp_right fun h => ⟨h.1, fun x hx => h.2 x (List.mem_cons_of_mem _ hx)⟩)]
        congr 1
        cases hstep : op.isStep with
        | false => exact hsettled op (List.mem_cons_self ..) hstep g
        | true =>
            rcases hg with rfl | ⟨rfl, hall⟩
            · simp
            · have := hall _ (List.mem_cons_self ..) hstep
              simp [hstep] at this

/-- Put in their scopes, steps are governed as the scopes say. -/
theorem itineraryOfOps_unscoped {xs : List (Op × Scope)} {active : Bool}
    (hlabel : ∀ x ∈ xs, ∀ via names, x.1 ≠ .labelContext via names)
    (hsettled : ∀ x ∈ xs, x.1.isStep = false → Settled x.1)
    (hg : (active = false → g = .own none) ∨
      ∀ x ∈ xs, x.1.isStep = true → x.2.isSome = true) :
    itineraryOfOps g (unscoped active xs) = xs.flatMap fun x => legs (.ofScope x.2) x.1 := by
  induction xs generalizing g active with
  | nil => rw [unscoped, itineraryOfOps, List.flatMap_nil]
  | cons x xs ih =>
      obtain ⟨op, scope⟩ := x
      obtain ⟨hop, hlabels⟩ := List.forall_mem_cons.1 hlabel
      obtain ⟨hown, hlater⟩ := List.forall_mem_cons.1 hsettled
      have hrest := fun {g : Governing} {active : Bool} (hg : active = false → g = .own none) =>
        ih hlabels hlater (.inl hg)
      rw [List.flatMap_cons]
      cases scope with
      | some context =>
          rw [unscoped, itineraryOfOps, legs_labelContext, itineraryOfOps,
            Governing.after_of_ne hop, hrest (by simp)]
          rfl
      | none =>
          unfold unscoped
          cases hstep : op.isStep with
          | false =>
              rw [Bool.and_false, if_neg Bool.false_ne_true, itineraryOfOps,
                Governing.after_of_ne hop, hown hstep g, ih hlabels hlater
                  (hg.imp_right fun h x hx => h x (List.mem_cons_of_mem _ hx))]
              rfl
          | true =>
              have hg : active = false → g = .own none := hg.resolve_right fun h => by
                have := h _ (List.mem_cons_self ..) hstep
                simp at this
              cases active with
              | true =>
                  rw [Bool.and_true, if_pos rfl, itineraryOfOps, legs_labelContext, itineraryOfOps,
                    Governing.after_of_ne hop,
                    hrest (g := g.after (.labelContext .all [])) fun _ => rfl]
                  rfl
              | false =>
                  rw [Bool.false_and, if_neg Bool.false_ne_true, itineraryOfOps,
                    Governing.after_of_ne hop, hrest hg, hg rfl]
                  rfl

theorem ne_labelContext_of_mem_scopedOps {ops : List Op} {scope : Scope} {x : Op × Scope}
    (hx : x ∈ scopedOps scope ops) (via : Via) (names : List String) :
    x.1 ≠ .labelContext via names := by
  induction ops generalizing scope with
  | nil => simp [scopedOps] at hx
  | cons op ops ih =>
      by_cases hlabel : ∃ via names, op = .labelContext via names
      · obtain ⟨via', names', rfl⟩ := hlabel
        obtain ⟨scope', hscoped, -⟩ := scopedOps_labelContext (g := .caller) scope via' names' ops
        exact ih (hscoped ▸ hx)
      · rw [scopedOps_of_ne fun via names heq => hlabel ⟨via, names, heq⟩] at hx
        rcases List.mem_cons.1 hx with rfl | hx
        · exact fun heq => hlabel ⟨via, names, heq⟩
        · exact ih hx

/-- The path comes to the same legs whatever governs it, and the same is true backwards. -/
structure IsSelfGoverned (q : Path) : Prop where
  itinerary : ∀ g, q.itinerary g = q.itinerary (.own none)
  reverse : ∀ g, q.reverse.itinerary g = Leg.back (q.itinerary g)

theorem IsSelfGoverned.settled {q : Path} (hq : q.IsSelfGoverned) (reverse : Bool) :
    Settled (.follow q reverse) := by
  intro g
  cases reverse with
  | false => simpa [legs] using hq.itinerary g
  | true => simp [legs, hq.reverse, hq.itinerary g]

theorem settled_of_isStep_eq_false {op : Op} (hop : op.isGoverned = true → op.isStep = true)
    (hstep : op.isStep = false) (hfollow : ∀ q reverse, op = .follow q reverse → q.IsSelfGoverned) :
    Settled op := by
  cases op with
  | follow q reverse => exact (hfollow q reverse rfl).settled reverse
  | labelContext via names => exact fun g => by rw [legs_labelContext, legs_labelContext]
  | _ => simp_all [Settled, legs, Leg.of, Op.isGoverned, Op.isStep]

section

variable (hops : ∀ op ∈ p.ops, op.isGoverned = true → op.isStep = true)
  (hfollow : ∀ q reverse, .follow q reverse ∈ p.ops → q.IsSelfGoverned)
include hfollow

theorem legs_reversed_of_mem (g : Governing) :
    ∀ op ∈ p.opsFromRoot, legs g op.reversed = Leg.back (legs g op) := by
  refine forall_mem_opsFromRoot (fun seeds => legs_reversed (by simp)) fun op hop => ?_
  exact legs_reversed fun q reverse heq => (hfollow q reverse (heq ▸ hop)).reverse g

include hops

theorem settled_of_mem : ∀ op ∈ p.opsFromRoot, op.isStep = false → Settled op := by
  refine forall_mem_opsFromRoot (fun seeds _ => ?_) fun op hop hstep => ?_
  · exact settled_of_isStep_eq_false (by simp [Op.isGoverned]) rfl (by simp)
  · exact settled_of_isStep_eq_false (hops op hop) hstep fun q reverse heq =>
      hfollow q reverse (heq ▸ hop)

variable (hg : g = .own none ∨ ∀ x ∈ p.inScopes, x.1.isStep = true → x.2.isSome = true)
include hg

/-- If label contexts are lifted where a path starts, or it labels its own steps, its operations are
read in their scopes. -/
theorem itinerary_of_scopes :
    p.itinerary g = p.inScopes.flatMap fun x => legs (.ofScope x.2) x.1 := by
  rw [inScopes_eq] at hg
  rw [itinerary_eq, inScopes_eq]
  exact itineraryOfOps_eq (settled_of_mem hops hfollow) (hg.imp_right fun h => ⟨rfl, h⟩)

/-- So are those of its reverse. -/
theorem itinerary_reverse_of_scopes :
    p.reverse.itinerary g = p.turned.flatMap fun x => legs (.ofScope x.2) x.1 := by
  have hmem : ∀ {x}, x ∈ p.inScopes → x ∈ scopedOps none p.opsFromRoot := fun hx =>
    inScopes_eq p ▸ hx
  rw [itinerary_eq, reverse_eq]
  refine itineraryOfOps_unscoped (forall_mem_turned fun x hx via names heq => ?_)
    (forall_mem_turned fun x hx hstep => ?_) (hg.imp (fun h _ => h) fun h => ?_)
  · refine ne_labelContext_of_mem_scopedOps (hmem hx) via names ?_
    rw [← Op.reversed_reversed x.1, show x.1.reversed = _ from heq]
    rfl
  · have hop : x.1 ∈ p.opsFromRoot := (mem_scopedOps (hmem hx)).1
    intro g
    rw [Op.isStep_reversed] at hstep
    rw [legs_reversed_of_mem hfollow _ _ hop, legs_reversed_of_mem hfollow _ _ hop,
      settled_of_mem hops hfollow _ hop hstep g]
  · refine forall_mem_turned fun x hx hstep => ?_
    rw [Op.isStep_reversed] at hstep
    exact h x hx hstep

/-- In their scopes, the reverse takes the same legs back. -/
theorem itinerary_reverse_eq_back : p.reverse.itinerary g = Leg.back (p.itinerary g) := by
  rw [itinerary_reverse_of_scopes hops hfollow hg, itinerary_of_scopes hops hfollow hg,
    Leg.back_flatMap, turned, List.flatMap_map]
  refine List.flatMap_congr fun x hx => legs_reversed_of_mem hfollow _ _ ?_
  exact (mem_scopedOps (inScopes_eq p ▸ List.mem_reverse.1 hx)).1

end

theorem scoped_inScopes (h : ∀ x ∈ scopedOps none p.ops, x.1.isStep = true → x.2.isSome = true) :
    ∀ x ∈ p.inScopes, x.1.isStep = true → x.2.isSome = true := by
  unfold inScopes
  cases p.root with
  | values seeds => exact List.forall_mem_cons.2 ⟨by simp [Op.isStep], h⟩
  | all | morphism => exact h

section

variable {K : Op → Prop} (hK : ∀ op, K op → op.isGoverned = true → op.isStep = true)
include hK

/-- What labels its own steps governs itself. -/
theorem LabelsItsSteps.isSelfGoverned {q : Path} (hq : q.BuiltFrom K)
    (hlabels : q.LabelsItsSteps) : q.IsSelfGoverned := by
  induction q using depth_induction with
  | step root ops ih =>
      have hkinds := builtFrom_iff.1 hq
      have hfollow : ∀ q reverse, .follow q reverse ∈ ops → q.IsSelfGoverned := fun q reverse hop =>
        ih q (depth_le_of_mem hop) (hkinds _ hop).2 (opsLabelTheirSteps_iff.1 hlabels.2 _ hop)
      have hops := fun op hop => hK op (hkinds op hop).kind
      have hscopes := scoped_inScopes (p := .mk root ops) hlabels.1
      refine ⟨fun g => ?_, fun g => itinerary_reverse_eq_back hops hfollow (.inr hscopes)⟩
      rw [itinerary_of_scopes hops hfollow (.inr hscopes),
        itinerary_of_scopes hops hfollow (.inr hscopes)]

/-- Where reversal keeps label contexts with their steps, the reverse takes the same legs back. -/
theorem itinerary_reverse_of_keepsLabels {lifted : Bool} (hg : lifted = true → g = .own none)
    (hp : p.BuiltFrom K) (hkeeps : p.KeepsLabels lifted) :
    p.reverse.itinerary g = Leg.back (p.itinerary g) := by
  induction p using depth_induction with
  | step root ops ih =>
      have hkinds := builtFrom_iff.1 hp
      rcases hkeeps with ⟨hunlabelled, hfollow⟩ | ⟨hlabels, hscoped⟩
      · exact itinerary_reverse_of_follows hunlabelled fun q reverse hop =>
          ih q (depth_le_of_mem hop) (hkinds _ hop).2 (opsKeepLabels_iff.1 hfollow _ hop)
      · have hself : ∀ q reverse, .follow q reverse ∈ ops → q.IsSelfGoverned := fun q reverse hop =>
          LabelsItsSteps.isSelfGoverned hK (hkinds _ hop).2 (opsLabelTheirSteps_iff.1 hlabels _ hop)
        exact itinerary_reverse_eq_back (fun op hop => hK op (hkinds op hop).kind) hself
          (hscoped.imp hg scoped_inScopes)

end

end Path

end GraphQuery
