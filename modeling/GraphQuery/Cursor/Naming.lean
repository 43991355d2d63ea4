import GraphQuery.Cursor.Basic

/-!
# Naming results

A cursor that binds names to whatever handle another cursor shows, on top of what that one binds.
-/

namespace GraphQuery

/-- Shows what `C` shows and binds `names` to it. -/
def Cursor.naming (C : Cursor) (names : List String) : Cursor where
  Body := C.State
  start := C.fresh
  shown := C.result
  binds s :=
    match C.result s with
    | some h => (C.tags s).insertAll names h
    | none => C.tags s
  canTurn _ := true
  turn := C.nextPath
  release := C.close
  turns_end := C.paths_end

def Scanner.naming (S : Scanner) (names : List String) : Scanner where
  toCursor := S.toCursor.naming names
  clear := id
  canPull _ := true
  pull := S.next
  descent := S.order
  clear_le := S.order.refl
  turn_le := S.nextPath_le
  pull_le := S.next_le
  pull_lt _ _ _ := Scanner.next_lt

def Index.naming (I : Index) (names : List String) : Index where
  toCursor := I.toCursor.naming names
  aim _ := id
  probe := I.contains

/-- The same results with names bound to them. -/
def Roles.naming (R : Roles) (names : List String) : Roles :=
  ⟨R.scanner.naming names, R.index.naming names⟩

end GraphQuery
