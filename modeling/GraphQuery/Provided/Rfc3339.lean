import GraphQuery.Instant
import GraphQuery.Unicode.Property

/-!
# Instants as RFC 3339 text

How a program that has no library for it writes and reads instants. No theorem rests on this.

`render` writes an instant in universal time with the fewest of no, three, six or nine decimals.
`parse?` reads such texts and laxer ones: blanks between the fields, short numbers, a blank for
the `T`, any offset. Days are counted from the first of January 1970 in the proleptic Gregorian
calendar.
-/

namespace GraphQuery

/-- A day of the proleptic Gregorian calendar; the year before 1 is the year 0. -/
structure CivilDate where
  year : Int
  month : Nat
  day : Nat
deriving DecidableEq, Repr

namespace CivilDate

def isLeapYear (year : Int) : Bool :=
  year % 4 = 0 && (year % 100 ≠ 0 || year % 400 = 0)

def daysInMonth (year : Int) (month : Nat) : Nat :=
  if month = 2 then if isLeapYear year then 29 else 28
  else if month = 4 || month = 6 || month = 9 || month = 11 then 30
  else 31

/-- Whether the calendar has this day. -/
def isValid (d : CivilDate) : Bool :=
  1 ≤ d.month && d.month ≤ 12 && 1 ≤ d.day && d.day ≤ daysInMonth d.year d.month

/-- Days from 1970-01-01. Years run from March, so that the leap day comes last in its cycle of
four hundred years, which has 146097 days. -/
def toDays (d : CivilDate) : Int :=
  let year := if d.month ≤ 2 then d.year - 1 else d.year
  let era := year / 400
  let yearOfEra := year - era * 400
  let monthFromMarch := (d.month + 9) % 12
  let dayOfYear := (153 * monthFromMarch + 2) / 5 + d.day - 1
  let dayOfEra := yearOfEra * 365 + yearOfEra / 4 - yearOfEra / 100 + dayOfYear
  era * 146097 + dayOfEra - 719468

/-- The day that is `days` days from 1970-01-01. -/
def ofDays (days : Int) : CivilDate :=
  let shifted := days + 719468
  let era := shifted / 146097
  let dayOfEra := shifted - era * 146097
  let yearOfEra := (dayOfEra - dayOfEra / 1460 + dayOfEra / 36524 - dayOfEra / 146096) / 365
  let dayOfYear := (dayOfEra - (365 * yearOfEra + yearOfEra / 4 - yearOfEra / 100)).toNat
  let monthFromMarch := (5 * dayOfYear + 2) / 153
  let day := dayOfYear - (153 * monthFromMarch + 2) / 5 + 1
  let month := if monthFromMarch < 10 then monthFromMarch + 3 else monthFromMarch - 9
  let year := yearOfEra + era * 400
  ⟨if month ≤ 2 then year + 1 else year, month, day⟩

end CivilDate

namespace Instant

/-- A number padded with zeros to `width` digits. -/
def padded (width n : Nat) : List Char :=
  let digits := Nat.toDigits 10 n
  List.replicate (width - digits.length) '0' ++ digits

/-- Years outside the four-digit ones carry a sign. -/
def yearText (year : Int) : List Char :=
  if 0 ≤ year && year ≤ 9999 then padded 4 year.toNat
  else (if year < 0 then '-' else '+') :: padded 4 year.natAbs

/-- The fraction of a second, in whole groups of three digits. -/
def fractionText (nanos : Nat) : List Char :=
  if nanos = 0 then []
  else if nanos % 1000000 = 0 then '.' :: padded 3 (nanos / 1000000)
  else if nanos % 1000 = 0 then '.' :: padded 6 (nanos / 1000)
  else '.' :: padded 9 nanos

/-- The date and time of day, without the offset. A leap second is written as second sixty. -/
def civilText (t : Instant) : List Char :=
  let date := CivilDate.ofDays (t.seconds / 86400)
  let second := (t.seconds % 86400).toNat
  yearText date.year ++ '-' :: padded 2 date.month ++ '-' :: padded 2 date.day ++
    'T' :: padded 2 (second / 3600) ++ ':' :: padded 2 (second / 60 % 60) ++
    ':' :: padded 2 (second % 60 + t.nanos / 1000000000) ++ fractionText (t.nanos % 1000000000)

/-- The instant followed by the text of the zero offset. -/
def render (offset : String) (t : Instant) : String :=
  String.ofList (civilText t) ++ offset

/-! ## Reading -/

/-- What is left after leading blanks. -/
def skipBlanks (cs : List Char) : List Char :=
  cs.dropWhile Unicode.isWhiteSpace

/-- One digit or more, at most `width` of them. -/
def digits? (width : Nat) (cs : List Char) : Option (Nat × List Char) :=
  let ds := (cs.take width).takeWhile Char.isDigit
  if ds.isEmpty then none else some (Nat.ofDigitChars 10 ds 0, cs.drop ds.length)

/-- A number within bounds, after blanks. -/
def field? (width low high : Nat) (cs : List Char) : Option (Nat × List Char) := do
  let (n, rest) ← digits? width (skipBlanks cs)
  if low ≤ n && n ≤ high then some (n, rest) else none

/-- A year of up to four digits, or of any number of them after a sign. -/
def year? (cs : List Char) : Option (Int × List Char) :=
  match skipBlanks cs with
  | '-' :: rest => (digits? rest.length rest).map fun (n, rest) => (-(n : Int), rest)
  | '+' :: rest => (digits? rest.length rest).map fun (n, rest) => ((n : Int), rest)
  | rest => (digits? 4 rest).map fun (n, rest) => ((n : Int), rest)

/-- A separator after blanks. -/
def separator? (c : Char) (cs : List Char) : Option (List Char) :=
  match skipBlanks cs with
  | d :: rest => if d = c then some rest else none
  | [] => none

/-- The end of the date: a `T`, or a blank for it. -/
def dateEnd? : List Char → Option (List Char)
  | 'T' :: rest | 't' :: rest | ' ' :: rest => some rest
  | _ => none

/-- Nanoseconds from up to nine decimals; further decimals are dropped. No point, no fraction. -/
def fraction? : List Char → Option (Nat × List Char)
  | '.' :: rest =>
      let ds := (rest.take 9).takeWhile Char.isDigit
      if ds.isEmpty then none
      else
        some (Nat.ofDigitChars 10 (ds ++ List.replicate (9 - ds.length) '0') 0,
          rest.dropWhile Char.isDigit)
  | rest => some (0, rest)

/-- Two digits, the first no larger than `lead`. -/
def twoDigits? (lead : Char) : List Char → Option (Nat × List Char)
  | a :: b :: rest =>
      if a.isDigit && a ≤ lead && b.isDigit then some (Nat.ofDigitChars 10 [a, b] 0, rest) else none
  | _ => none

/-- Seconds east of Greenwich: a name of the zero offset, or a sign, hours and minutes. -/
def offset? (cs : List Char) : Option (Int × List Char) := do
  let signed (rest : List Char) : Option (Nat × List Char) := do
    let (hours, rest) ← twoDigits? '9' rest
    let rest := rest.dropWhile fun c => c = ':' || Unicode.isWhiteSpace c
    let (minutes, rest) ← twoDigits? '5' rest
    some (hours * 3600 + minutes * 60, rest)
  match cs with
  | 'Z' :: rest | 'z' :: rest => some (0, rest)
  | '+' :: rest => (signed rest).map fun (n, rest) => ((n : Int), rest)
  | '-' :: rest | '−' :: rest => (signed rest).map fun (n, rest) => (-(n : Int), rest)
  | u :: t :: c :: rest =>
      if [u, t, c].map Char.toUpper = ['U', 'T', 'C'] then some (0, rest) else none
  | _ => none

/-- The years that dates may fall in. -/
def yearInRange (year : Int) : Bool :=
  -262143 ≤ year && year ≤ 262142

/-- The date, the time of day and the offset, with nothing but blanks after them. -/
def parseChars? (cs : List Char) : Option Instant := do
  let (year, cs) ← year? cs
  let cs ← separator? '-' cs
  let (month, cs) ← field? 2 1 12 cs
  let cs ← separator? '-' cs
  let (day, cs) ← field? 2 1 31 cs
  let cs ← dateEnd? cs
  let (hour, cs) ← field? 2 0 23 cs
  let cs ← separator? ':' cs
  let (minute, cs) ← field? 2 0 59 cs
  let cs ← separator? ':' cs
  let (second, cs) ← field? 2 0 60 cs
  let (nanos, cs) ← fraction? cs
  let (offset, cs) ← offset? (skipBlanks cs)
  let date : CivilDate := ⟨year, month, day⟩
  if !(skipBlanks cs).isEmpty || !date.isValid || !yearInRange year || 86400 ≤ offset.natAbs then
    none
  else
    let local' := date.toDays * 86400 + hour * 3600 + minute * 60 + min second 59
    let seconds := local' - offset
    if yearInRange (CivilDate.ofDays (seconds / 86400)).year then
      some ⟨seconds, nanos + if second = 60 then 1000000000 else 0⟩
    else none

/-- The instant that a text names, if it is the text of one. -/
def parse? (text : String) : Option Instant :=
  parseChars? text.toList

end Instant

end GraphQuery
