import GraphQuery.Provided.Regex.CharClass

/-!
# Names of character properties

How a property of characters is named in an expression: without regard to case, blanks, hyphens,
underscores and an initial `is`.
-/

namespace GraphQuery.Pattern

/-- The form in which names are compared. -/
def looseName (name : String) : String :=
  let strip (cs : List Char) : List Char :=
    cs.filterMap fun c =>
      if c = ' ' || c = '_' || c = '-' || 128 ≤ c.toNat then none else some c.toLower
  match name.toList with
  | a :: b :: rest =>
      if a.toLower = 'i' && b.toLower = 's' then
        let rest := strip rest
        if rest = ['c'] then "isc" else String.ofList rest
      else String.ofList (strip (a :: b :: rest))
  | cs => String.ofList (strip cs)

/-- The entry one of whose names is this one in loose form. -/
def findLoose {α : Type} (loose : String) (entries : List (List String × α)) : Option α :=
  (entries.find? fun (names, _) => names.any fun n => looseName n = loose).map Prod.snd

/-- Properties under their names. -/
def namedProperties : List (List String × CharProperty) :=
  [(["Alphabetic", "Alpha"], .alphabetic),
    (["Uppercase", "Upper"], .uppercase),
    (["Lowercase", "Lower"], .lowercase),
    (["White_Space", "WSpace", "space"], .whiteSpace),
    (["Grapheme_Extend", "Gr_Ext"], .graphemeExtend),
    (["Grapheme_Base", "Gr_Base"], .graphemeBase),
    (["Cased"], .cased)] ++
    Unicode.binaryTexts.map fun (names, _) => (names, .binary (names.headD ""))

/-- The class of a general category, or one of three classes named beside the categories. -/
def categoryClass? (loose : String) : Option CharClass :=
  if loose = "any" then some .any
  else if loose = "assigned" then some (.complement (.property (.category "Cn")))
  else if loose = "ascii" then some .ascii
  else
    (findLoose loose (Unicode.categoryNames.map fun (code, names) => (code :: names, code))).map
      fun code => .property (.category code)

def scriptClass? (loose : String) : Option CharClass :=
  (findLoose loose (Unicode.scriptNames.map fun (code, names) => (code :: names, code))).map
    fun code => .property (.script code)

/-- The class that a lone name means: a property, a category or a script. Three abbreviations are of
categories although there are properties of the same abbreviation. -/
def classOfName? (name : String) : Option CharClass :=
  let loose := looseName name
  let byProperty :=
    if ["cf", "sc", "lc"].contains loose then none
    else (findLoose loose namedProperties).map CharClass.property
  byProperty <|> categoryClass? loose <|> scriptClass? loose

/-- The class of the characters for which a property has a value. -/
def classOfValue? (name value : String) : Option CharClass :=
  let loose := looseName name
  if ["gc", "generalcategory"].contains loose then categoryClass? (looseName value)
  else if ["sc", "script", "scx", "scriptextensions"].contains loose then
    scriptClass? (looseName value)
  else none

/-- The class of a name that may be divided by a relation sign into a property and its value. -/
def classOfText? (text : List Char) : Option CharClass :=
  let before (sign : Char) := String.ofList (text.takeWhile (· ≠ sign))
  let after (sign : Char) := String.ofList ((text.dropWhile (· ≠ sign)).drop 1)
  match splitUnequal [] text with
  | some (name, value) => classOfValue? name value
  | none =>
      if text.contains ':' then classOfValue? (before ':') (after ':')
      else if text.contains '=' then classOfValue? (before '=') (after '=')
      else classOfName? (String.ofList text)
where
  /-- Divides at the first `!=`. -/
  splitUnequal (front : List Char) : List Char → Option (String × String)
    | '!' :: '=' :: rest => some (String.ofList front.reverse, String.ofList rest)
    | c :: rest => splitUnequal (c :: front) rest
    | [] => none

end GraphQuery.Pattern
