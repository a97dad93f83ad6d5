import Vimlet.Number.Dyadic

/-!
# Decimal digits of doubles

Two choices of decimal digits for a positive value `mantissa * 2 ^ exponent`: the fewest digits that
read back as the same double, and a fixed number of digits, rounded to the nearest with ties to the
even neighbour. All arithmetic is exact.
-/

namespace Vimlet

/-- Significant decimal digits `d₁d₂…` of the number `d₁.d₂… * 10 ^ exponent`. -/
structure Digits where
  significand : Nat
  exponent : Int
deriving DecidableEq, Repr

/-- How many decimal digits a number has. -/
def digitCount (n : Nat) : Nat := (Nat.toDigits 10 n).length

/-- A positive fraction with the open or closed interval of fractions that stand for it; the three
numerators share one denominator. -/
structure Neighbourhood where
  value : Nat
  lower : Nat
  upper : Nat
  denominator : Nat
  closed : Bool

namespace Neighbourhood

/-- The interval of reals that round to a positive double. -/
def ofDyadic (d : Dyadic) : Neighbourhood :=
  let below := if d.mantissa == Nat.pow 2 52 && d.exponent != -1074 then 1 else 2
  let exponent := d.exponent - 2
  let up := Nat.pow 2 exponent.toNat
  let down := Nat.pow 2 (-exponent).toNat
  ⟨4 * d.mantissa * up, (4 * d.mantissa - below) * up, (4 * d.mantissa + 2) * up, down,
    d.mantissa % 2 == 0⟩

/-- The number `k` with `10 ^ (k - 1) ≤ value < 10 ^ k`. -/
def magnitude (near : Neighbourhood) : Int :=
  let guess : Int := digitCount near.value - digitCount near.denominator
  let reaches (k : Int) : Bool :=
    near.denominator * Nat.pow 10 k.toNat ≤ near.value * Nat.pow 10 (-k).toNat
  if reaches guess then guess + 1 else guess

/-- The same fractions in units of `10 ^ unit`. -/
def inUnits (near : Neighbourhood) (unit : Int) : Neighbourhood :=
  let up := Nat.pow 10 (-unit).toNat
  { near with
    value := near.value * up
    lower := near.lower * up
    upper := near.upper * up
    denominator := near.denominator * Nat.pow 10 unit.toNat }

/-- The number lies in the neighbourhood. -/
def holds (near : Neighbourhood) (n : Nat) : Bool :=
  let point := n * near.denominator
  if near.closed then near.lower ≤ point && point ≤ near.upper
  else near.lower < point && point < near.upper

/-- The whole number nearest to the value; a tie goes to the even one. -/
def nearest (near : Neighbourhood) : Nat :=
  let quotient := near.value / near.denominator
  let twice := 2 * (near.value % near.denominator)
  if twice < near.denominator || (twice == near.denominator && quotient % 2 == 0) then quotient
  else quotient + 1

/-- The whole number in the interval next to the value, or its neighbour on the other side. -/
def candidate? (near : Neighbourhood) : Option Nat :=
  let quotient := near.value / near.denominator
  let first := near.nearest
  let second := if first == quotient then quotient + 1 else quotient
  if near.holds first then some first
  else if near.holds second then some second
  else none

end Neighbourhood

namespace Digits

/-- Drops trailing zeros of a significand; `fuel` bounds their number. -/
def dropZeros : Nat → Nat → Nat
  | 0, n => n
  | fuel + 1, n => if n % 10 == 0 && n != 0 then dropZeros fuel (n / 10) else n

/-- The digits of a number of units. -/
def ofUnits (n : Nat) (unit : Int) : Digits :=
  ⟨dropZeros (digitCount n) n, unit + digitCount n - 1⟩

/-- Tries `count`, `count + 1`, … digits, at most `fuel` times. -/
def shortestFrom (near : Neighbourhood) (magnitude : Int) : Nat → Nat → Digits
  | 0, count => ofUnits (near.inUnits (magnitude - count)).nearest (magnitude - count)
  | fuel + 1, count =>
    match (near.inUnits (magnitude - count)).candidate? with
    | some n => ofUnits n (magnitude - count)
    | none => shortestFrom near magnitude fuel (count + 1)

/-- The fewest digits that read back as the same positive double, the nearest of those to it. -/
def shortest (d : Dyadic) : Digits :=
  let near := Neighbourhood.ofDyadic d
  shortestFrom near near.magnitude 16 1

/-- The given number of digits, rounded. -/
def rounded (count : Nat) (d : Dyadic) : Digits :=
  let near := Neighbourhood.ofDyadic d
  let unit := near.magnitude - count
  ofUnits (near.inUnits unit).nearest unit

end Digits

end Vimlet
