import GraphQuery.Number.Binary64

/-!
# Shortest decimals

Every finite double is the nearest double to an interval of reals. `shortest` picks from that
interval a decimal with as few digits as possible, and of those the one nearest to the double.
-/

namespace GraphQuery

/-- `10 ^ n`. -/
def tenTo (n : Nat) : Nat :=
  Nat.pow 10 n

namespace Binary64

/-- Which of two equally near decimals is taken. -/
inductive Tie where
  | up
  | toEven
deriving DecidableEq, Repr

/-- The decimal `digits * 10 ^ exponent`. -/
structure Decimal where
  digits : Nat
  exponent : Int
deriving DecidableEq, Repr

/-- The reals that read as one double, in units of `2 ^ -1076`; the ends belong when `closed`. -/
structure Interval where
  lower : Nat
  centre : Nat
  upper : Nat
  closed : Bool

/-- The interval of a finite number other than zero. It is half as wide below a power of two. -/
def interval (x : Binary64) : Interval :=
  let m := x.significand
  let unit := 1 <<< x.scale
  let below := if x.fraction = 0 ∧ 1 < x.exponentField then 1 else 2
  { lower := (4 * m - below) * unit
    centre := 4 * m * unit
    upper := (4 * m + 2) * unit
    closed := m % 2 = 0 }

/-- The decimal exponent of the leading digit of `n / 2 ^ 1076`. -/
def leadingExponent (n : Nat) : Int :=
  let guess := ((n.log2 : Int) - 1076) * 30103 / 100000
  let reaches (k : Int) : Bool :=
    if 0 ≤ k then tenTo k.toNat <<< 1076 ≤ n else 1 <<< 1076 ≤ n * tenTo (-k).toNat
  if reaches (guess + 1) then guess + 1 else if reaches guess then guess else guess - 1

/-- The multiple of `10 ^ exponent` in the interval that is nearest to its centre. -/
def Interval.onGrid? (i : Interval) (tie : Tie) (exponent : Int) : Option Nat :=
  let unit := tenTo exponent.toNat <<< 1076
  let finer := tenTo (-exponent).toNat
  let centre := i.centre * finer
  let floor := centre / unit
  let holds (c : Nat) : Bool :=
    if i.closed then i.lower * finer ≤ c * unit && c * unit ≤ i.upper * finer
    else i.lower * finer < c * unit && c * unit < i.upper * finer
  let down := centre - floor * unit
  let up := (floor + 1) * unit - centre
  match holds floor, holds (floor + 1) with
  | false, false => none
  | true, false => some floor
  | false, true => some (floor + 1)
  | true, true =>
      if down < up then some floor
      else if up < down then some (floor + 1)
      else match tie with
        | .up => some (floor + 1)
        | .toEven => some (floor + floor % 2)

/-- The first grid with a hit among those of `count` more digits; seventeen digits always hit. -/
def Interval.search (i : Interval) (tie : Tie) : Nat → Int → Decimal
  | 0, exponent => ⟨i.centre * tenTo (-exponent).toNat / (tenTo exponent.toNat <<< 1076), exponent⟩
  | count + 1, exponent =>
      match i.onGrid? tie exponent with
      | some digits => ⟨digits, exponent⟩
      | none => i.search tie count (exponent - 1)

/-- Moves trailing zeros of at most `fuel` digits into the exponent. -/
def Decimal.trim : Nat → Decimal → Decimal
  | 0, d => d
  | fuel + 1, d =>
      if d.digits ≠ 0 ∧ d.digits % 10 = 0 then trim fuel ⟨d.digits / 10, d.exponent + 1⟩ else d

/-- The fewest digits that read back as `x`, for finite `x` other than zero; of several such
decimals the nearest, and of two equally near ones the one that `tie` names. -/
def shortest (tie : Tie) (x : Binary64) : Decimal :=
  let i := x.interval
  (i.search tie 17 (leadingExponent i.centre)).trim 18

end Binary64

/-! ## Written decimals -/

/-- How a double is written out. -/
structure DecimalStyle where
  /-- Which of two equally near shortest decimals is written. -/
  tie : Binary64.Tie
  /-- What follows a whole number written without an exponent. -/
  wholeSuffix : String
  /-- Leading exponents outside these bounds are written in scientific form. -/
  positional : Option (Int × Int)
  nan : String
  infinity : String

namespace DecimalStyle

/-- `digits * 10 ^ exponent` without an exponent. -/
def positionalText (wholeSuffix : String) (digits : List Char) (exponent : Int) : String :=
  let point := (digits.length : Int) + exponent
  if 0 ≤ exponent then
    String.ofList (digits ++ List.replicate exponent.toNat '0') ++ wholeSuffix
  else if 0 < point then
    String.ofList (digits.take point.toNat ++ '.' :: digits.drop point.toNat)
  else
    String.ofList ('0' :: '.' :: List.replicate (-point).toNat '0' ++ digits)

/-- One digit before the point, and the exponent with its sign. -/
def scientificText (digits : List Char) (exponent : Int) : String :=
  let power := (digits.length : Int) - 1 + exponent
  let mantissa := match digits with
    | d :: e :: rest => d :: '.' :: e :: rest
    | short => short
  String.ofList mantissa ++ (if power < 0 then "e-" else "e+") ++ toString power.natAbs

/-- The text of a number in this style. -/
def render (style : DecimalStyle) (x : Binary64) : String :=
  let sign := if x.isNegative then "-" else ""
  if x.isNaN then style.nan
  else if x.isInfinite then sign ++ style.infinity
  else if x.isZero then sign ++ "0" ++ style.wholeSuffix
  else
    let d := x.shortest style.tie
    let digits := Nat.toDigits 10 d.digits
    let power := (digits.length : Int) - 1 + d.exponent
    let fits := match style.positional with
      | none => true
      | some (low, high) => low ≤ power && power ≤ high
    sign ++ if fits then positionalText style.wholeSuffix digits d.exponent
      else scientificText digits d.exponent

end DecimalStyle

end GraphQuery
