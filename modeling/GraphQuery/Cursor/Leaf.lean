import GraphQuery.Cursor.Basic
import GraphQuery.Store

/-!
# Leaves

A list of handles is scanned from first to last, and a set of handles is probed for membership.
Neither binds anything.
-/

namespace GraphQuery

/-- A place in a list of handles: the one shown, and those to come. -/
structure ListPlace where
  current : Option Handle
  rest : List Handle

/-- Shows the handles of a list one after the other. -/
def Scanner.ofList (handles : List Handle) : Scanner where
  Body := ListPlace
  start := ⟨none, handles⟩
  shown := ListPlace.current
  binds _ := .empty
  canTurn _ := false
  turn b t := ⟨.nothing, b, t⟩
  release b := b
  turns_end := ⟨fun _ => ⟨_, fun _ ⟨_, h, _⟩ => by simp at h⟩⟩
  clear b := { b with current := none }
  canPull _ := true
  pull b t :=
    match b.rest with
    | [] => ⟨.nothing, b, t⟩
    | h :: rest => ⟨.found h, ⟨some h, rest⟩, t⟩
  descent := Descent.nat.comap fun b => b.rest.length
  clear_le _ := Nat.le_refl _
  turn_le _ _ := Nat.le_refl _
  pull_le b t := by
    show List.length _ ≤ List.length _
    split <;> simp_all
  pull_lt b t h hf := by
    show List.length _ < List.length _
    split at hf <;> simp_all

/-- Answers whether a handle is in a set. -/
def Index.ofMem (mem : Handle → Bool) : Index where
  Body := Option Handle
  start := none
  shown b := b
  binds _ := .empty
  canTurn _ := false
  turn b t := ⟨.nothing, b, t⟩
  release b := b
  turns_end := ⟨fun _ => ⟨_, fun _ ⟨_, h, _⟩ => by simp at h⟩⟩
  aim _ _ := none
  probe h b t := if mem h then ⟨.found (), some h, t⟩ else ⟨.nothing, b, t⟩

namespace Roles

/-- Scanning the list and probing it. -/
def ofHandles (handles : HandleList) : Roles :=
  ⟨.ofList handles.toList, .ofMem handles.contains⟩

/-- There are no results. -/
def null : Roles :=
  ⟨.ofList [], .ofMem fun _ => false⟩

/-- The nodes of a store. -/
def nodes (store : QuadStore) : Roles :=
  ⟨.ofList store.nodes, .ofMem store.containsNode⟩

end Roles

end GraphQuery
