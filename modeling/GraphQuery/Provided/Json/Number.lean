import GraphQuery.Provided.Json

/-!
# Numbers in JSON documents

A literal is read digit by digit into a 64-bit significand and a power of ten; digits that no
longer fit only move the power. A number with a point, an exponent or too many digits becomes the
significand, rounded, times or divided by the power of ten, rounded again.
-/

namespace GraphQuery

/-- The parts of a number literal. -/
structure NumberLiteral where
  negative : Bool
  whole : List Nat
  fraction : Option (List Nat)
  /-- Whether the exponent is negative, and its digits. -/
  exponent : Option (Bool × List Nat)
deriving DecidableEq, Repr

namespace NumberLiteral

/-- Digits taken into the significand, and whether one has overflowed it. -/
structure Intake where
  significand : Nat
  /-- The power of ten that the significand is to be scaled by. -/
  power : Int
  full : Bool

/-- A digit before the point: past the overflow it scales the number by ten. -/
def Intake.addWhole (a : Intake) (digit : Nat) : Intake :=
  let next := 10 * a.significand + digit
  if a.full || UInt64.size ≤ next then { a with power := a.power + 1, full := true }
  else { a with significand := next }

/-- A digit after the point: past the overflow it is dropped. -/
def Intake.addFraction (a : Intake) (digit : Nat) : Intake :=
  let next := 10 * a.significand + digit
  if a.full || UInt64.size ≤ next then { a with full := true }
  else { a with significand := next, power := a.power - 1 }

/-- `x` divided by `10 ^ power`, at most `10 ^ 308` at a time. -/
def divideByPower : Nat → Binary64 → Nat → Binary64
  | 0, x, _ => x
  | fuel + 1, x, power =>
      if power ≤ 308 then x.div (.ofNat (tenTo power))
      else if x.isZero then x
      else divideByPower fuel (x.div (.ofNat (tenTo 308))) (power - 308)

/-- The significand scaled by the power of ten, unless that is past the largest double. -/
def scaled? (significand : Nat) (power : Int) : Option Binary64 :=
  let x := Binary64.ofNat significand
  if power < 0 then some (divideByPower 4 x power.natAbs)
  else if 308 < power then if x.isZero then some x else none
  else
    let y := x.mul (.ofNat (tenTo power.toNat))
    if y.isInfinite then none else some y

/-- The value of an exponent, none once it passes 31 bits. -/
def exponentValue? (digits : List Nat) : Option Nat :=
  digits.foldlM (fun e d => if 0x80000000 ≤ 10 * e + d then none else some (10 * e + d)) 0

/-- The number as a double, unless it is past the largest one. -/
def double? (l : NumberLiteral) (whole : Intake) : Option Binary64 := do
  let a := (l.fraction.getD []).foldl Intake.addFraction { whole with full := false }
  let x ← match l.exponent with
    | none => scaled? a.significand a.power
    | some (down, digits) =>
        match exponentValue? digits with
        | some e => scaled? a.significand (if down then a.power - e else a.power + e)
        | none => if a.significand = 0 || down then some (.ofNat 0) else none
  some (if l.negative then x.neg else x)

/-- What the literal stands for, if anything. The negative zero is a double. -/
def value? (l : NumberLiteral) : Option JsonNumber :=
  let whole := l.whole.foldl Intake.addWhole ⟨0, 0, false⟩
  if l.fraction.isSome || l.exponent.isSome || whole.full then (l.double? whole).map .double
  else if !l.negative then some (.natural whole.significand.toUInt64)
  else if 0 < whole.significand && whole.significand ≤ 0x8000000000000000 then
    some (.negative whole.significand.toUInt64)
  else some (.double (Binary64.ofNat whole.significand).neg)

end NumberLiteral

end GraphQuery
