import GraphQuery.Provided.Rfc3339
import GraphQuery.Provided.Json.Reader
import GraphQuery.Provided.Json.Writer
import GraphQuery.Value

/-!
# Values as JSON

How a program without a library for it writes values and reads them. No theorem rests on this.

A value is an object with the members `kind` and `value`, or an array of the two. Texts with a
language or a datatype are objects in their turn; an instant is RFC 3339 text.
-/

namespace GraphQuery

/-- The tag of a kind in JSON. -/
def Kind.tag : Kind → String
  | .blank => "b_node"
  | k => k.name

/-- The kind with this tag. -/
def Kind.ofTag? (tag : String) : Option Kind :=
  Kind.all.find? (·.tag = tag)

namespace Value

/-- A document string. -/
def jsonText (s : String) : Json :=
  .string (some s)

/-- The content of the member `value`. -/
def jsonContent : Value → Json
  | .iri s | .blank s | .str s => jsonText s
  | .lang s language => .object [(some "value", jsonText s), (some "lang", jsonText language)]
  | .typed s datatype => .object [(some "value", jsonText s), (some "datatype", jsonText datatype)]
  | .int n =>
      if 0 ≤ n.toInt then .number (some (.natural n.toInt.toNat.toUInt64))
      else .number (some (.negative n.toInt.natAbs.toUInt64))
  | .float x => .number (some (.double x))
  | .bool b => .bool b
  | .time t => jsonText (t.render "Z")

def toJson (v : Value) : Json :=
  .object [(some "kind", jsonText v.kind.tag), (some "value", v.jsonContent)]

/-- Two texts under these keys, each once, other members aside. -/
def textPair? (first second : String) : Json → Option (String × String)
  | .object members => do
      let members ← Json.members? members
      match Json.select [first, second] members with
      | [(k, a), (_, b)] => do
          let a ← a.text?
          let b ← b.text?
          if (Json.select [first] members).length ≠ 1 then none
          else if k = first then some (a, b) else some (b, a)
      | _ => none
  | _ => none

/-- The value of a kind with this content. -/
def ofContent? (kind : Kind) (j : Json) : Option Value :=
  match kind with
  | .iri => j.text?.map .iri
  | .blank => j.text?.map .blank
  | .str => j.text?.map .str
  | .lang => (textPair? "value" "lang" j).map fun (s, language) => .lang s language
  | .typed => (textPair? "value" "datatype" j).map fun (s, datatype) => .typed s datatype
  | .int => j.integer?.map .int
  | .float => j.double?.map .float
  | .bool => j.bool?.map .bool
  | .time => (j.text?.bind Instant.parse?).map .time

def ofTagged? (tag content : Json) : Option Value := do
  let kind ← Kind.ofTag? (← tag.name?)
  ofContent? kind content

/-- The bound on brackets open inside a content that has to be held back for its kind. -/
def heldDepth : Nat :=
  126

/-- The value that a document stands for. A content that comes before its kind is held back, which
it can be only if all of it stands for something. -/
def ofJson? : Json → Option Value
  | .array [tag, content] => ofTagged? tag content
  | .object members => do
      let members ← Json.members? members
      match Json.select ["kind", "value"] members with
      | [("kind", tag), ("value", content)] => ofTagged? tag content
      | [("value", content), ("kind", tag)] =>
          if content.complete && content.depth ≤ heldDepth then ofTagged? tag content else none
      | _ => none
  | _ => none

/-- The JSON text of a value. -/
def encodeJson (v : Value) : String :=
  v.toJson.render

/-- The value whose JSON text this is. -/
def decodeJson? (text : String) : Option Value :=
  (Json.parse? text).bind ofJson?

end Value

end GraphQuery
