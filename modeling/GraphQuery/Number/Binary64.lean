/-!
# Double-precision numbers as bit patterns

A number is its sixty-four bits, so equality is equality of bits and every operation is exact
arithmetic on natural numbers. `ofRatio` rounds a quotient to the nearest double, ties to even;
products, quotients and conversions are that rounding applied to the exact result.
-/

namespace GraphQuery

/-- A double, given by its bits: sign, eleven bits of exponent, fifty-two of fraction. -/
structure Binary64 where
  bits : UInt64
deriving DecidableEq, Hashable, Inhabited, Repr

namespace Binary64

/-- The highest bit. -/
def signBit : Nat :=
  0x8000000000000000

/-- The lowest bit of the exponent field, and the bit that is left out of the fraction. -/
def exponentBit : Nat :=
  0x10000000000000

/-- The bits below the sign. -/
def magnitude (x : Binary64) : Nat :=
  x.bits.toNat % signBit

def isNegative (x : Binary64) : Bool :=
  x.bits.toNat / signBit = 1

def exponentField (x : Binary64) : Nat :=
  x.magnitude / exponentBit

def fraction (x : Binary64) : Nat :=
  x.magnitude % exponentBit

def isNaN (x : Binary64) : Bool :=
  x.exponentField = 2047 && x.fraction ≠ 0

def isInfinite (x : Binary64) : Bool :=
  x.exponentField = 2047 && x.fraction = 0

def isFinite (x : Binary64) : Bool :=
  x.exponentField ≠ 2047

def isZero (x : Binary64) : Bool :=
  x.magnitude = 0

/-- The whole number `m` in `m * 2 ^ (scale - 1074)`, the absolute value of a finite number. -/
def significand (x : Binary64) : Nat :=
  if x.exponentField = 0 then x.fraction else exponentBit + x.fraction

/-- The power of two that one unit of the significand weighs, in steps above `2 ^ -1074`. -/
def scale (x : Binary64) : Nat :=
  x.exponentField - 1

/-- The double with this sign and these bits below it. -/
def ofMagnitude (negative : Bool) (magnitude : Nat) : Binary64 :=
  ⟨((if negative then signBit else 0) + magnitude % signBit).toUInt64⟩

def infinity (negative : Bool) : Binary64 :=
  ofMagnitude negative (2047 * exponentBit)

/-- Flips the sign bit. -/
def neg (x : Binary64) : Binary64 :=
  ofMagnitude (!x.isNegative) x.magnitude

/-! ## Order -/

/-- Equal for the two zeros, increasing along the real line. -/
def realKey (x : Binary64) : Int :=
  if x.isNegative then -(x.magnitude : Int) else x.magnitude

/-- Increasing from the negative NaNs through the real line to the positive NaNs; `-0` is before
`0`. -/
def totalKey (x : Binary64) : Int :=
  if x.isNegative then -1 - (x.magnitude : Int) else x.magnitude

/-- Order as numbers: no NaN is comparable and the zeros are equal. -/
def compare? (x y : Binary64) : Option Ordering :=
  if x.isNaN || y.isNaN then none else some (compare x.realKey y.realKey)

/-- The order in which equal means the same bits. -/
def totalCompare (x y : Binary64) : Ordering :=
  compare x.totalKey y.totalKey

/-! ## Rounding -/

/-- The whole number nearest to `num / den`, a half going to the even neighbour. -/
def roundHalfEven (num den : Nat) : Nat :=
  let q := num / den
  let r := num % den
  if 2 * r < den then q else if den < 2 * r then q + 1 else q + q % 2

/-- `num / den` over `2 ^ (e - 1074)`, as a quotient of whole numbers. -/
def rescale (num den e : Nat) : Nat × Nat :=
  if e ≤ 1074 then (num <<< (1074 - e), den) else (num, den <<< (e - 1074))

/-- The steps above `2 ^ -1074` that one unit of a 53-bit significand of `num / den` weighs. -/
def exponentFor (num den : Nat) : Nat :=
  let guess := num.log2 + 1074 - 53 - den.log2
  let (n, d) := rescale num den guess
  if 2 * exponentBit * d ≤ n then guess + 1 else guess

/-- The double nearest to `num / den`, ties to even; past the largest finite one, infinity. -/
def ofRatio (negative : Bool) (num den : Nat) : Binary64 :=
  let e := exponentFor num den
  let (n, d) := rescale num den e
  let magnitude := e * exponentBit + roundHalfEven n d
  if num = 0 then ofMagnitude negative 0
  else if 2047 * exponentBit ≤ magnitude then infinity negative
  else ofMagnitude negative magnitude

def ofNat (n : Nat) : Binary64 :=
  ofRatio false n 1

def ofInt (i : Int) : Binary64 :=
  ofRatio (i < 0) i.natAbs 1

/-- Numerator and denominator of the absolute value of a finite number. -/
def toRatio (x : Binary64) : Nat × Nat :=
  (x.significand <<< x.scale, 1 <<< 1074)

/-- The product of two finite numbers, rounded. -/
def mul (x y : Binary64) : Binary64 :=
  ofRatio (x.isNegative != y.isNegative) (x.toRatio.1 * y.toRatio.1) (x.toRatio.2 * y.toRatio.2)

/-- The quotient of two finite numbers, the second not zero, rounded. -/
def div (x y : Binary64) : Binary64 :=
  ofRatio (x.isNegative != y.isNegative) (x.toRatio.1 * y.toRatio.2) (x.toRatio.2 * y.toRatio.1)

end Binary64

end GraphQuery
