import GraphQuery.Path
import GraphQuery.Proofs.Safety.Plan
import GraphQuery.Session

/-!
# What paths relate

The rows of a path read straight off the values and quads of a store: nodes, each with what is bound
on the way to it. There are no plans and no cursors here, and an operation is a function on rows.
-/

namespace GraphQuery

/-- The label context in force, if any: the labels it allows, and the names it binds to them. -/
abbrev LabelScope : Type :=
  Option (List Value × List String)

namespace LabelScope

/-- The label context after an operation. -/
def after (scope : LabelScope) : Op → LabelScope
  | .labelContext (.values values) names => some (values, names)
  | .labelContext _ _ => none
  | _ => scope

end LabelScope

namespace MemoryStore

def isOneOf (s : MemoryStore) (values : List Value) (h : Handle) : Bool :=
  values.any fun v => s.intern v = some h

/-- The restriction lets the predicate through. What a path lets through is not read here. -/
def admitsPredicate (s : MemoryStore) : Via → Handle → Bool
  | .all, _ => true
  | .values values, h => s.isOneOf values h
  | .path _, _ => false

def admitsLabel (s : MemoryStore) : LabelScope → Option Handle → Bool
  | none, _ => true
  | some _, none => false
  | some (values, _), some l => s.isOneOf values l

def bindLabel : LabelScope → Option Handle → Tags → Tags
  | some (_, names), some l, t => t.insertAll names l
  | _, _, t => t

/-- Where a quad leads from a row. The predicate is bound before the label. -/
def along (s : MemoryStore) (fromEnd toEnd : Direction) (via : Via) (names : List String)
    (scope : LabelScope) (r : ResultRow) (q : Quad) : List ResultRow :=
  if q.at fromEnd = some r.id ∧ s.admitsPredicate via q.predicate ∧
      s.admitsLabel scope q.label then
    (q.at toEnd).toList.map fun h =>
      ⟨h, bindLabel scope q.label (r.tags.insertAll names q.predicate)⟩
  else []

/-- Every row along every quad. -/
def walk (s : MemoryStore) (fromEnd toEnd : Direction) (via : Via) (names : List String)
    (scope : LabelScope) (rows : List ResultRow) : List ResultRow :=
  rows.flatMap fun r => s.quads.toList.flatMap (s.along fromEnd toEnd via names scope r)

def accepts (s : MemoryStore) (test : ValueTest) (h : Handle) : Bool :=
  (s.resolve h).any fun v => (test v).toOption.getD false

def image? (s : MemoryStore) (f : ValueMap) (h : Handle) : Option Handle :=
  (s.resolve h).bind fun v => (f v).toOption.bind s.intern

/-- The rows that a path starts from on its own: each known seed once, or all nodes. -/
def seeds (s : MemoryStore) : Root → List ResultRow
  | .values values => (values.filterMap s.intern).dedup.map (⟨·, .empty⟩)
  | .all | .morphism => s.nodes.map (⟨·, .empty⟩)

/-- The rows that a path starts from when it is applied to rows. -/
def applied (s : MemoryStore) : Root → List ResultRow → List ResultRow
  | .values values, rows => rows.filter fun r => s.isOneOf values r.id
  | .all, rows | .morphism, rows => rows

end MemoryStore

/-- Pairs of rows at the same node; what the second binds overrides what the first binds. -/
def ResultRow.pairs (rows others : List ResultRow) : List ResultRow :=
  rows.flatMap fun r => (others.filter (·.id = r.id)).map fun u => ⟨r.id, r.tags.override u.tags⟩

mutual

def Op.reach (s : MemoryStore) (scope : LabelScope) (rows : List ResultRow) : Op → List ResultRow
  | .is values => rows.filter fun r => s.isOneOf values r.id
  | .outgoing via names => s.walk .subject .object via names scope rows
  | .incoming via names => s.walk .object .subject via names scope rows
  | .both via names =>
      s.walk .subject .object via names scope rows ++ s.walk .object .subject via names scope rows
  | .and other => ResultRow.pairs rows (other.reach s scope none)
  | .or other => rows ++ other.reach s scope none
  | .except other => rows.filter fun r => !(other.reach s scope none).any (·.id = r.id)
  | .follow morphism _ => morphism.reach s scope (some rows)
  | .tag names => rows.map fun r => ⟨r.id, r.tags.insertAll names r.id⟩
  | .constrain c => rows.filter fun r => (s.resolve r.id).any c.holds
  | .filter test => rows.filter fun r => s.accepts test r.id
  | .map f => rows.filterMap fun r => (s.image? f r.id).map (⟨·, r.tags⟩)
  | _ => rows

/-- The rows of a path, on its own or applied to rows. -/
def Path.reach (s : MemoryStore) (scope : LabelScope) (input : Option (List ResultRow)) :
    Path → List ResultRow
  | .mk root ops =>
      Path.reachOps s scope
        (match input with
          | none => s.seeds root
          | some rows => s.applied root rows) ops

def Path.reachOps (s : MemoryStore) (scope : LabelScope) (rows : List ResultRow) :
    List Op → List ResultRow
  | [] => rows
  | op :: ops => Path.reachOps s (scope.after op) (op.reach s scope rows) ops

end

/-! ## Operations that are read as relations -/

/-- No path decides what is walked. -/
def Via.IsPlain : Via → Prop
  | .all | .values _ => True
  | .path _ => False

mutual

def Op.IsRelational (store : QuadStore) : Op → Prop
  | .is _ | .tag _ | .constrain _ => True
  | .outgoing via _ | .incoming via _ | .both via _ | .labelContext via _ => via.IsPlain
  | .and p | .or p | .except p | .follow p false => p.IsRelational store
  | .filter test => store.Total test
  | .map f => store.Total f
  | _ => False

def Path.IsRelational (store : QuadStore) : Path → Prop
  | .mk _ ops => Path.AreRelational store ops

def Path.AreRelational (store : QuadStore) : List Op → Prop
  | [] => True
  | op :: ops => op.IsRelational store ∧ Path.AreRelational store ops

end

end GraphQuery
