import GraphQuery.Proofs.Path.Reverse

/-!
# What paths are built from

Many results are about paths that have operations of certain kinds only. The paths that such a path
goes on with count as parts of it; those that its operations only look up do not.
-/

namespace GraphQuery

mutual

def Op.BuiltFrom (K : Op → Prop) : Op → Prop
  | .follow p reverse => K (.follow p reverse) ∧ p.BuiltFrom K
  | .followRecursive p maxDepth names => K (.followRecursive p maxDepth names) ∧ p.BuiltFrom K
  | op => K op

/-- The operations of the path, and of the paths that it goes on with, are of this kind. Nothing is
asked of the paths that operations only look up. -/
def Path.BuiltFrom (K : Op → Prop) : Path → Prop
  | .mk _ ops => Path.OpsBuiltFrom K ops

def Path.OpsBuiltFrom (K : Op → Prop) : List Op → Prop
  | [] => True
  | op :: ops => op.BuiltFrom K ∧ Path.OpsBuiltFrom K ops

end

variable {K K' : Op → Prop}

theorem Op.BuiltFrom.kind {op : Op} (h : op.BuiltFrom K) : K op := by
  cases op with
  | follow | followRecursive => exact h.1
  | _ => exact h

mutual

theorem Op.BuiltFrom.mono (hK : ∀ op, K op → K' op) : ∀ op : Op, op.BuiltFrom K → op.BuiltFrom K'
  | .follow p _, h | .followRecursive p _ _, h => ⟨hK _ h.1, Path.BuiltFrom.mono hK p h.2⟩
  | .is _, h | .outgoing _ _, h | .incoming _ _, h | .both _ _, h | .and _, h | .or _, h
  | .except _, h | .has _ _ _, h | .unique, h | .limit _, h | .skip _, h | .order, h | .tag _, h
  | .labelContext _ _, h | .constrain _, h | .filter _, h | .map _, h | .inPredicates, h
  | .outPredicates, h | .labels, h => hK _ h

theorem Path.BuiltFrom.mono (hK : ∀ op, K op → K' op) :
    ∀ p : Path, p.BuiltFrom K → p.BuiltFrom K'
  | .mk _ ops, h => Path.OpsBuiltFrom.mono hK ops h

theorem Path.OpsBuiltFrom.mono (hK : ∀ op, K op → K' op) :
    ∀ ops : List Op, Path.OpsBuiltFrom K ops → Path.OpsBuiltFrom K' ops
  | [], _ => trivial
  | op :: ops, h => ⟨Op.BuiltFrom.mono hK op h.1, Path.OpsBuiltFrom.mono hK ops h.2⟩

end

theorem Path.opsBuiltFrom_iff {ops : List Op} :
    OpsBuiltFrom K ops ↔ ∀ op ∈ ops, op.BuiltFrom K := by
  induction ops with
  | nil => simp [OpsBuiltFrom]
  | cons op ops ih => simp [OpsBuiltFrom, ih]

theorem Path.builtFrom_iff {p : Path} : p.BuiltFrom K ↔ ∀ op ∈ p.ops, op.BuiltFrom K := by
  cases p with
  | mk root ops => exact opsBuiltFrom_iff

theorem Op.BuiltFrom.reversed (hK : ∀ op, K op → K op.reversed) {op : Op} (h : op.BuiltFrom K) :
    op.reversed.BuiltFrom K := by
  cases op with
  | follow p reverse => exact ⟨hK _ h.1, h.2⟩
  | followRecursive p maxDepth names => exact h
  | _ => exact hK _ h

/-- The reverse is built from the same kinds. -/
theorem Path.BuiltFrom.reverse (hK : ∀ op, K op → K op.reversed) (his : ∀ seeds, K (.is seeds))
    (hlift : K (.labelContext .all [])) {p : Path} (h : p.BuiltFrom K) : p.reverse.BuiltFrom K := by
  refine builtFrom_iff.2 fun op hop => ?_
  rcases mem_ops_reverse hop with ⟨seeds, rfl⟩ | rfl | hop | ⟨o, ho, rfl⟩
  · exact his seeds
  · exact hlift
  · exact builtFrom_iff.1 h op hop
  · exact (builtFrom_iff.1 h o ho).reversed hK

end GraphQuery
