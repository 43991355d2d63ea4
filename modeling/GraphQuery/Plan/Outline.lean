import GraphQuery.Plan

/-!
# Outlines of plans

A plan as text, with the particulars of each operator. What a plan holds of stores and functions is
left out and marked by two dots.
-/

namespace GraphQuery.Plan

/-- A list in square brackets. -/
def outlineList (items : List String) : String :=
  "[" ++ ", ".intercalate items ++ "]"

/-- Labelled parts in braces after a title. -/
def outlineRecord (title : String) (parts : List (String × String)) (complete : Bool) : String :=
  let parts := parts.map (fun (label, text) => label ++ ": " ++ text) ++
    if complete then [] else [".."]
  title ++ " \x7b " ++ ", ".intercalate parts ++ " \x7d"

def outlineNames (names : List String) : String :=
  outlineList (names.map Quoted.quote)

def outlineEnd : Direction → String
  | .subject => "Subject"
  | .predicate => "Predicate"
  | .object => "Object"
  | .label => "Label"

def outlineBindings : ClosureBindings → String
  | .first => "First"
  | .all => "All"

def outlineOption : Option String → String
  | none => "None"
  | some text => "Some(" ++ text ++ ")"

mutual

def outline : Plan → String
  | .fixed handles =>
      outlineRecord "Fixed"
        [("values", outlineList (handles.toList.map fun h => "Handle(" ++ toString h.toNat ++ ")"))]
        true
  | .null => "Null"
  | .all => outlineRecord "AllNodes" [] false
  | .input => "Input"
  | .and ps k =>
      outlineRecord "And"
        [("subs", outlineList (outlineAll ps)), ("primary", toString (driver ps k))] true
  | .or ps => outlineRecord "Or" [("subs", outlineList (outlineAll ps))] true
  | .not forbidden whole =>
      outlineRecord "Not" [("forbidden", outline forbidden), ("all", outline whole)] true
  | .unique p => outlineRecord "Unique" [("sub", outline p)] true
  | .save p names => outlineRecord "Save" [("sub", outline p), ("tags", outlineNames names)] true
  | .limit p n => outlineRecord "Limit" [("sub", outline p), ("limit", toString n)] true
  | .skip p n => outlineRecord "Skip" [("sub", outline p), ("skip", toString n)] true
  | .sort p => outlineRecord "Sort" [("sub", outline p)] false
  | .step source fromEnd toEnd via names labels =>
      outlineRecord "Step"
        [("from", outline source), ("from_dir", outlineEnd fromEnd), ("to_dir", outlineEnd toEnd),
          ("via", outlineOption (outlineOf via)), ("labels", outlineOption (outlineOf labels)),
          ("via_tags", outlineNames names)] false
  | .filter p _ => outlineRecord "ValueFilter" [("sub", outline p)] false
  | .map p _ => outlineRecord "ValueMapper" [("sub", outline p)] false
  | .constraint p _ => outlineRecord "ValueConstraint" [("sub", outline p)] false
  | .recursive p _ maxDepth depthNames bindings =>
      outlineRecord "Recursive"
        [("sub", outline p), ("max_depth", toString maxDepth),
          ("depth_tags", outlineNames depthNames), ("bindings", outlineBindings bindings)] false

def outlineAll : List Plan → List String
  | [] => []
  | p :: ps => outline p :: outlineAll ps

def outlineOf : Option Plan → Option String
  | none => none
  | some p => some (outline p)

end

end GraphQuery.Plan
