import GraphQuery.Plan
import GraphQuery.Cursor.Mapped
import GraphQuery.Cursor.Paging
import GraphQuery.Cursor.Sieve
import GraphQuery.Cursor.Step
import GraphQuery.Cursor.Union

/-!
# Evaluating plans

`Plan.roles` gives the scanner and the index of a plan over a store, each built from those of the
operands. Where membership depends on the course of a scan, the index answers from a record of it.
-/

namespace GraphQuery

/-- A scanner with the index that answers from its record. -/
def Roles.ofScanner (S : Scanner) : Roles :=
  ⟨S, S.recorded⟩

namespace Plan

mutual

/-- How a plan is scanned and probed. `hole` is what stands in the hole of a morphism. -/
def rolesOn (store : QuadStore) (hole : Roles) : Plan → Roles
  | .fixed handles => .ofHandles handles
  | .null => .null
  | .all => .nodes store
  | .input => hole
  | .and operands primary => .join (rolesOfAll store hole operands) (driver operands primary)
  | .or operands => .union (rolesOfAll store hole operands)
  | .not forbidden whole => (rolesOn store hole whole).without (rolesOn store hole forbidden)
  | .unique p => .ofScanner (rolesOn store hole p).scanner.firsts
  | .save p names => (rolesOn store hole p).naming names
  | .limit p n =>
      let R := rolesOn store hole p
      ⟨R.scanner.limit n, if n = 0 then R.index else (R.scanner.limit n).recorded⟩
  | .skip p n =>
      let R := rolesOn store hole p
      ⟨R.scanner.skip n, if n = 0 then R.index else (R.scanner.skip n).recorded⟩
  | .sort p =>
      let R := rolesOn store hole p
      ⟨R.scanner.sorted store, R.index⟩
  | .step source fromEnd toEnd via names labels =>
      (rolesOn store hole source).step
        ⟨store, fromEnd, toEnd,
          ⟨(rolesOfOption store hole via).map Roles.index, names,
            (rolesOfOption store hole labels).map Roles.index⟩⟩
  | .filter p test => (rolesOn store hole p).testing store test
  | .map p f => .ofScanner ((rolesOn store hole p).scanner.mapped store f)
  | .constraint p cs => (rolesOn store hole p).testing store fun v => .ok (cs.all (·.holds v))
  | .recursive p morphism maxDepth depthNames bindings =>
      .ofScanner ((rolesOn store hole p).scanner.closure
        ⟨store, fun input => rolesOn store input morphism, maxDepth, depthNames, bindings⟩)

def rolesOfAll (store : QuadStore) (hole : Roles) : List Plan → List Roles
  | [] => []
  | p :: ps => rolesOn store hole p :: rolesOfAll store hole ps

def rolesOfOption (store : QuadStore) (hole : Roles) : Option Plan → Option Roles
  | none => none
  | some p => some (rolesOn store hole p)

end

/-- How a plan without a hole is scanned and probed. -/
def roles (store : QuadStore) (p : Plan) : Roles :=
  p.rolesOn store .null

end Plan

end GraphQuery
