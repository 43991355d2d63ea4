import GraphQuery.Cursor.Basic

/-!
# Visiting results

Feeds the results of a scanner to a visitor, who may stop at any row. With `paths` set every binding
set of a result is a row, and counts towards the limit.
-/

namespace GraphQuery

/-- One row of a result: the node reached, and the bindings on the way to it. -/
structure ResultRow where
  id : Handle
  tags : Tags
deriving DecidableEq

/-- The name under which every row binds its own node. -/
def resultName : String :=
  "id"

/-- What is delivered: each binding set or each result, and at most how many rows. -/
structure Delivery where
  paths : Bool
  limit : Option Nat

def Delivery.isFull (d : Delivery) (rows : Nat) : Bool :=
  d.limit.any (· ≤ rows)

/-- A visitor's state after a row; `stop` ends the visit, and the visitor may trip the token. -/
structure Visited (σ : Type) where
  state : σ
  token : Token
  stop : Bool

/-- How a visit ended, with the number of rows delivered. -/
structure Visit (σ : Type) where
  outcome : Except QueryError Nat
  state : σ
  token : Token

/-- What becomes of the visit after the rows of one result. -/
inductive AfterResult where
  | goOn
  | stop
  | fail (error : QueryError)

/-- The rows of one result delivered, and where this leaves the scanner and the visitor. -/
structure ResultVisit (S : Scanner) (σ : Type) where
  after : AfterResult
  rows : Nat
  state : σ
  source : S.State
  token : Token

namespace Scanner

variable {σ : Type}

/-- Delivers the rows of the result shown, from the binding set shown on. -/
def visitResult (S : Scanner) (d : Delivery) (visit : ResultRow → σ → Token → Visited σ)
    (s : S.State) (rows : Nat) (x : σ) (t : Token) : ResultVisit S σ :=
  let v : Nat × Visited σ := match S.result s with
    | none => (rows, ⟨x, t, false⟩)
    | some id => (rows + 1, visit ⟨id, (S.tags s).insert resultName id⟩ x t)
  if v.2.stop then ⟨.stop, v.1, v.2.state, s, v.2.token⟩
  else if !d.paths || d.isFull v.1 then ⟨.goOn, v.1, v.2.state, s, v.2.token⟩
  else
    let o := S.nextPath s v.2.token
    match _h : o.answer with
    | .found _ => S.visitResult d visit o.state v.1 v.2.state o.token
    | .nothing => ⟨.goOn, v.1, v.2.state, o.state, o.token⟩
    | .failed e => ⟨.fail e, v.1, v.2.state, o.state, o.token⟩
termination_by S.paths_end.wrap s
decreasing_by exact ⟨_, _h, rfl⟩

theorem visitResult_le (S : Scanner) (d : Delivery) (visit : ResultRow → σ → Token → Visited σ)
    (s : S.State) (rows : Nat) (x : σ) (t : Token) :
    S.order.le (S.visitResult d visit s rows x t).source s := by
  fun_induction visitResult S d visit s rows x t with
  | case1 => exact S.order.refl _
  | case2 => exact S.order.refl _
  | case3 _ _ _ _ _ _ _ _ _ _ ih => exact S.order.trans ih (S.nextPath_le _ _)
  | case4 => exact S.nextPath_le _ _
  | case5 => exact S.nextPath_le _ _

/-- Delivers the rows of all further results. -/
def visitFrom (S : Scanner) (d : Delivery) (visit : ResultRow → σ → Token → Visited σ)
    (s : S.State) (rows : Nat) (x : σ) (t : Token) : Visit σ :=
  if d.isFull rows then ⟨.ok rows, x, t⟩
  else
    let o := S.next s t
    match _h : o.answer with
    | .nothing => ⟨.ok rows, x, o.token⟩
    | .failed e => ⟨.error e, x, o.token⟩
    | .found _ =>
        let r := S.visitResult d visit o.state rows x o.token
        match r.after with
        | .stop => ⟨.ok r.rows, r.state, r.token⟩
        | .fail e => ⟨.error e, r.state, r.token⟩
        | .goOn => S.visitFrom d visit r.source r.rows r.state r.token
termination_by S.order.wf.wrap s
decreasing_by exact S.order.lt_of_le_of_lt (S.visitResult_le ..) (next_lt _h)

/-- Delivers all rows to a visitor. -/
def visit (S : Scanner) (d : Delivery) (visit : ResultRow → σ → Token → Visited σ) (x : σ)
    (t : Token) : Visit σ :=
  S.visitFrom d visit S.fresh 0 x t

end Scanner

end GraphQuery
