import GraphQuery.Proofs.Reversal.Chain
import GraphQuery.Proofs.Reversal.Labels

/-!
# The converse of a path

Where the reverse of a path takes the same legs back, it leads back wherever the path leads, if the
operations are such that each of them leads back turned around: if they walk, or keep nodes for what
is true of them in either direction.
-/

namespace GraphQuery

namespace Op

/-- The operation walks or follows another path, or keeps nodes for what does not change with the
direction. -/
def IsInvertible : Op → Prop
  | .is _ | .outgoing _ _ | .incoming _ _ | .both _ _ | .and _ | .except _ | .follow _ _ | .unique
  | .order | .tag _ | .constrain _ | .filter _ => True
  | _ => False

/-- The operation walks or follows another path, or puts a label context with literal labels, or
none, in force. -/
def IsLabelledWalk : Op → Prop
  | .is _ | .outgoing _ _ | .incoming _ _ | .both _ _ | .follow _ _ => True
  | .labelContext via _ => via.IsPlain
  | _ => False

def IsReversible (op : Op) : Prop :=
  op.IsInvertible ∨ op.IsLabelledWalk

theorem IsInvertible.ne_labelContext (via : Via) (names : List String) :
    ¬ (labelContext via names).IsInvertible :=
  id

theorem IsLabelledWalk.isStep : ∀ op : Op, op.IsLabelledWalk → op.isGoverned = true →
    op.isStep = true := by
  intro op h hgoverned
  cases op <;> first | exact hgoverned | exact h.elim

theorem IsReversible.passable {ok : String → Prop} : ∀ op : Op, op.IsReversible →
    op.IsPassable ok := by
  rintro op (h | h)
  · cases op <;> first | exact trivial | exact h.elim
  · cases op <;> first | exact h | exact h.elim

theorem IsReversible.reversed : ∀ op : Op, op.IsReversible → op.reversed.IsReversible := by
  intro op h
  cases op <;> exact h

variable {m : MemoryStore} {bindings : ClosureBindings} {ctx : LabelContext}

theorem stays_comm {P : Handle → Prop} {x y : Handle} : (y = x ∧ P y) ↔ (x = y ∧ P x) := by
  constructor <;> rintro ⟨rfl, h⟩ <;> exact ⟨rfl, h⟩

theorem IsReversible.links_reversed {op : Op} (h : op.IsReversible) (x y : Handle) :
    op.reversed.Links m bindings ctx y x ↔ op.Links m bindings ctx x y := by
  cases op with
  | outgoing via own | incoming via own => exact Plan.walks_comm
  | both via own => exact (or_congr Plan.walks_comm Plan.walks_comm).trans or_comm
  | is values => exact stays_comm
  | and other | except other => exact stays_comm
  | constrain c =>
      exact stays_comm (P := fun z => Table.accepts m.toStore (Op.constrain c).tested z = true)
  | filter test => exact stays_comm (P := fun z => Table.accepts m.toStore test z = true)
  | unique | order | tag own => exact eq_comm
  | follow q reverse => exact .rfl
  | labelContext via own => exact .rfl
  | _ => exact (or_self_iff.1 h).elim

end Op

namespace Path

variable {m : MemoryStore} {bindings : ClosureBindings} {caller : LabelContext} {g : Governing}
  {p : Path} {x y : Handle}

theorem mem_itineraryOfOps {ops : List Op} {l : Leg} (hl : l ∈ itineraryOfOps g ops) :
    ∃ op ∈ ops, ∃ g', l ∈ legs g' op := by
  induction ops generalizing g with
  | nil => simp [itineraryOfOps] at hl
  | cons op ops ih =>
      rw [itineraryOfOps, List.mem_append] at hl
      rcases hl with hl | hl
      · exact ⟨op, List.mem_cons_self .., g, hl⟩
      · obtain ⟨o, ho, g', hl⟩ := ih hl
        exact ⟨o, List.mem_cons_of_mem _ ho, g', hl⟩

theorem forall_mem_itinerary {K : Op → Prop} (hK : ∀ op, K op → K op.reversed)
    (his : ∀ seeds, K (.is seeds)) (hlift : K (.labelContext .all [])) (hp : p.BuiltFrom K) :
    ∀ l ∈ p.itinerary g, K l.op := by
  induction p using depth_induction generalizing g with
  | step root ops ih =>
      have hlegs : ∀ op ∈ (Path.mk root ops).opsFromRoot, ∀ g, ∀ l ∈ legs g op, K l.op := by
        refine forall_mem_opsFromRoot (fun seeds g l hl => ?_) fun op hop g l hl => ?_
        · have hl : l = .of g (.is seeds) := by simpa [legs] using hl
          exact hl ▸ his seeds
        · have hkind := builtFrom_iff.1 hp op hop
          have hdepth := depth_le_of_mem hop
          cases op with
          | follow q reverse =>
              cases reverse with
              | false => exact ih q hdepth hkind.2 l (by simpa [legs] using hl)
              | true =>
                  exact ih q.reverse (Nat.le_trans (depth_reverse_le q) hdepth)
                    (hkind.2.reverse hK his hlift) l (by simpa [legs] using hl)
          | labelContext via own => simp [legs] at hl
          | _ =>
              obtain rfl : l = _ := by simpa [legs] using hl
              exact hkind.kind
      intro l hl
      rw [itinerary_eq] at hl
      obtain ⟨op, hop, g', hl⟩ := mem_itineraryOfOps hl
      exact hlegs op hop g' l hl

/-- The reverse leads back wherever the path leads, if it takes the same legs back. -/
theorem leadsToBy_reverse (bindings : ClosureBindings) (hm : m.Addressable)
    (hkinds : p.BuiltFrom Op.IsReversible)
    (hwithin : p.Within m.toStore.harmless)
    (hctx : ContextSound m (fun _ => True) (g.context m.toStore caller))
    (hback : p.reverse.itinerary g = Leg.back (p.itinerary g)) (hx : x ∈ m.toStore.nodes)
    (hy : y ∈ m.toStore.nodes) :
    p.reverse.LeadsToBy ⟨m.toStore, bindings⟩ (g.context m.toStore caller) y x ↔
      p.LeadsToBy ⟨m.toStore, bindings⟩ (g.context m.toStore caller) x y := by
  have hpassable : p.BuiltFrom (Op.IsPassable fun _ => True) :=
    .mono Op.IsReversible.passable p hkinds
  have hforth : p.LeadsToBy ⟨m.toStore, bindings⟩ (g.context m.toStore caller) x y ↔
      Chain (Leg.Links m bindings caller) (p.itinerary g) x y :=
    leadsToBy_iff (leadsAlong hm p) hpassable hwithin (fun _ _ => trivial) hctx hm hx
  have hreverse : p.reverse.LeadsToBy ⟨m.toStore, bindings⟩ (g.context m.toStore caller) y x ↔
      Chain (Leg.Links m bindings caller) (p.reverse.itinerary g) y x :=
    leadsToBy_iff (leadsAlong hm p.reverse) hpassable.reverse_passable (within_reverse hwithin)
      (fun _ _ => trivial) hctx hm hy
  rw [hforth, hreverse, hback]
  refine chain_reverse fun l hl x y => ?_
  have hreversible : l.op.IsReversible :=
    forall_mem_itinerary Op.IsReversible.reversed (fun _ => .inl trivial) (.inr trivial) hkinds l hl
  exact hreversible.links_reversed x y

end Path

end GraphQuery
