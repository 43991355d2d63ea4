import GraphQuery.Unicode.Property

/-!
# Quoted text

A text between double quotes in which every character can be seen: quotes, backslashes and the
common controls are written by a letter, all else that cannot be shown alone by its number.
-/

namespace GraphQuery.Quoted

/-- The number of a character in hexadecimal, between braces. -/
def numbered (c : Char) : List Char :=
  '\\' :: 'u' :: '\x7b' :: Nat.toDigits 16 c.toNat ++ ['\x7d']

/-- How one character is written between the quotes. -/
def encodeChar (c : Char) : List Char :=
  if c = '\x00' then ['\\', '0']
  else if c = '\t' then ['\\', 't']
  else if c = '\r' then ['\\', 'r']
  else if c = '\n' then ['\\', 'n']
  else if c = '"' then ['\\', '"']
  else if c = '\\' then ['\\', '\\']
  else if Unicode.isGraphemeExtend c || !Unicode.isPrintable c then numbered c
  else [c]

def encode (text : List Char) : List Char :=
  '"' :: text.flatMap encodeChar ++ ['"']

/-- The text as it is shown in messages and listings. -/
def quote (text : String) : String :=
  String.ofList (encode text.toList)

end GraphQuery.Quoted
