import GraphQuery.Provided.Regex
import GraphQuery.Provided.Regex.Property

/-!
# Matching modes

The modes that an expression can switch on and off for its parts, and what they make of characters,
classes and anchors. Where a mode turns Unicode off, a class may hold ASCII characters only.
-/

namespace GraphQuery.Pattern

/-- The modes in force at a place of an expression. -/
structure Mode where
  anyCase : Bool := false
  multiLine : Bool := false
  dotAll : Bool := false
  unicode : Bool := true
  crlf : Bool := false
  spaced : Bool := false

namespace Mode

/-- Whether a class holds one of the characters from U+0080 to U+00FF. -/
def holdsHighByte (s : CharClass) : Bool :=
  (List.range 128).any fun k => s.mem (Char.ofNat (128 + k))

/-- A class without Unicode: it has to keep to ASCII. -/
def asciiOnly? (s : CharClass) : Option CharClass :=
  if holdsHighByte s then none else some (.inter .ascii s)

/-- The class folded and complemented as the modes and the brackets ask. -/
def settle? (m : Mode) (negated : Bool) (s : CharClass) : Option CharClass :=
  let folded :=
    if !m.anyCase then s else if m.unicode then .anyCase s else .anyAsciiCase s
  let s := if negated then .complement folded else folded
  if m.unicode then some s else asciiOnly? s

/-- One of the two operands of a set operation. -/
def operand (m : Mode) (s : CharClass) : CharClass :=
  if !m.anyCase then s else if m.unicode then .anyCase s else .anyAsciiCase s

/-- A character that stands for itself. Without Unicode a two-digit escape is a byte, and only ASCII
bytes are characters. -/
def literal? (m : Mode) (c : Char) (isByte : Bool) : Option Char :=
  if !m.unicode && isByte && 128 ≤ c.toNat then none else some c

def literalClass (m : Mode) (c : Char) : CharClass :=
  if m.anyCase then
    if m.unicode then .anyCase (.single c) else .anyAsciiCase (.single c)
  else .single c

/-- Any character, or any but those that end a line. -/
def dot? (m : Mode) : Option CharClass :=
  if !m.unicode then none
  else if m.dotAll then some .any
  else if m.crlf then some (.complement (.ofChars ['\r', '\n']))
  else some (.complement (.single '\n'))

def lineStart (m : Mode) : Anchor :=
  if !m.multiLine then .textStart else if m.crlf then .lineStartCrlf else .lineStart

def lineEnd (m : Mode) : Anchor :=
  if !m.multiLine then .textEnd else if m.crlf then .lineEndCrlf else .lineEnd

/-- The characters of words. -/
def word (m : Mode) : CharClass :=
  if m.unicode then .property .word
  else .unions [.range 'a' 'z', .range 'A' 'Z', .range '0' '9', .single '_']

/-- The classes of a single letter: digits, blanks and characters of words. -/
def letterClass (m : Mode) (letter : Char) : CharClass :=
  match letter with
  | 'd' => if m.unicode then .property (.category "Nd") else .range '0' '9'
  | 's' =>
      if m.unicode then .property .whiteSpace
      else .ofChars ['\t', '\n', '\x0b', '\x0c', '\r', ' ']
  | _ => m.word

/-- A class of a single letter, complemented for a capital letter. -/
def letterClass? (m : Mode) (letter : Char) : Option CharClass :=
  let s := m.letterClass letter.toLower
  let s := if letter.isUpper then .complement s else s
  if m.unicode then some s else asciiOnly? s

/-- A class by the name of a property; there are none without Unicode. -/
def propertyClass? (m : Mode) (negated : Bool) (name : List Char) : Option CharClass :=
  if m.unicode then (classOfText? name).bind (m.settle? negated) else none

end Mode

/-- The ASCII classes that have names. -/
def asciiClasses : List (String × CharClass) :=
  let digit : CharClass := .range '0' '9'
  let lower : CharClass := .range 'a' 'z'
  let upper : CharClass := .range 'A' 'Z'
  let letter : CharClass := .union lower upper
  [("alnum", .union digit letter), ("alpha", letter), ("ascii", .ascii),
    ("blank", .ofChars ['\t', ' ']), ("cntrl", .union (.range '\x00' '\x1f') (.single '\x7f')),
    ("digit", digit), ("graph", .range '!' '~'), ("lower", lower), ("print", .range ' ' '~'),
    ("punct", .unions [.range '!' '/', .range ':' '@', .range '[' '\x60', .range '\x7b' '~']),
    ("space", .ofChars ['\t', '\n', '\x0b', '\x0c', '\r', ' ']), ("upper", upper),
    ("word", .unions [digit, letter, .single '_']),
    ("xdigit", .unions [digit, .range 'a' 'f', .range 'A' 'F'])]

/-! ## Switching modes -/

/-- A change of modes as it is written: letters, and a hyphen before those switched off. -/
structure ModeChange where
  letters : List (Char × Bool)

/-- Reads the letters up to a colon or a closing parenthesis, which is left. No letter and no hyphen
may be given twice, and a hyphen has to be followed by a letter. -/
def ModeChange.read? (off : Bool) (seen : List (Char × Bool)) :
    List Char → Option (ModeChange × List Char)
  | [] => none
  | c :: cs =>
      if c = ':' || c = ')' then some (⟨seen.reverse⟩, c :: cs)
      else if c = '-' then
        if off then none
        else
          match cs with
          | [] => none
          | d :: _ => if d = ':' || d = ')' then none else read? true seen cs
      else if !("imsUuRx".contains c) || seen.any (·.1 = c) then none
      else read? off ((c, !off) :: seen) cs

/-- The modes after a change. Greed is of no consequence to whether a text matches. -/
def Mode.change (m : Mode) (change : ModeChange) : Mode :=
  change.letters.foldl
    (fun m (letter, on) =>
      match letter with
      | 'i' => { m with anyCase := on }
      | 'm' => { m with multiLine := on }
      | 's' => { m with dotAll := on }
      | 'u' => { m with unicode := on }
      | 'R' => { m with crlf := on }
      | 'x' => { m with spaced := on }
      | _ => m)
    m

end GraphQuery.Pattern
