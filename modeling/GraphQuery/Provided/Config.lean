import GraphQuery.Config
import GraphQuery.Provided.Json.Reader

/-!
# Configurations in JSON

How a program without a library for it reads configurations. No theorem rests on this.

A configuration is an object whose members may be left out, or an array of their values in order, of
which the last may be left out. Members of other names are passed over.
-/

namespace GraphQuery.Config

/-- The names of the members, in order. -/
def keys : List String :=
  ["optimize", "max_optimize_passes", "recursive_bindings", "default_limit", "include_paths"]

def bindingsOfName? : String → Option ClosureBindings
  | "first" => some .first
  | "all" => some .all
  | _ => none

/-- Sets one member, if its value is of the right kind. -/
def set? (c : Config) (key : String) (j : Json) : Option Config :=
  match key, j with
  | "optimize", j => j.bool?.map fun optimize => { c with optimize }
  | "max_optimize_passes", j => j.natural?.map fun n => { c with maxPasses := n.toNat }
  | "recursive_bindings", j =>
      (j.name?.bind bindingsOfName?).map fun bindings => { c with bindings }
  | "default_limit", .null => some { c with defaultLimit := none }
  | "default_limit", j => j.natural?.map fun n => { c with defaultLimit := some n.toNat }
  | "include_paths", j => j.bool?.map fun includePaths => { c with includePaths }
  | _, _ => none

/-- Sets members one after the other. -/
def setAll? (c : Config) (members : List (String × Json)) : Option Config :=
  members.foldlM (fun c (key, j) => c.set? key j) c

/-- The configuration that a document stands for. No member may be given twice. -/
def ofJson? : Json → Option Config
  | .object members => do
      let members := Json.select keys (← Json.members? members)
      if (members.map Prod.fst).Nodup then setAll? {} members else none
  | .array items => if items.length ≤ keys.length then setAll? {} (keys.zip items) else none
  | _ => none

/-- The configuration of this JSON text. -/
def decodeJson? (text : String) : Option Config :=
  (Json.parse? text).bind ofJson?

end GraphQuery.Config
