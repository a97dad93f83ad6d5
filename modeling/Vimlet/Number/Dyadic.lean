/-!
# Exact values of doubles

A finite double is an integer times a power of two. Operations that must be exact (truncation,
remainder, conversion to decimal digits) work on that form.
-/

namespace Vimlet

/-- A finite double: a sign and `mantissa * 2 ^ exponent`. -/
structure Dyadic where
  /-- The sign bit, which also tells the two zeros apart. -/
  negative : Bool
  mantissa : Nat
  exponent : Int
deriving DecidableEq, Repr

namespace Dyadic

/-- The exact value of a double, or nothing for an infinity or a NaN. -/
def ofFloat? (x : Float) : Option Dyadic :=
  let bits := x.toBits.toNat
  let fraction := bits % Nat.pow 2 52
  let biased : Nat := bits / Nat.pow 2 52 % Nat.pow 2 11
  let negative := bits / Nat.pow 2 63 == 1
  if biased == 2047 then none
  else if biased == 0 then some ⟨negative, fraction, -1074⟩
  else some ⟨negative, fraction + Nat.pow 2 52, (biased : Int) - 1075⟩

/-- The double with this value, provided that it has one. -/
def toFloat (d : Dyadic) : Float :=
  let magnitude := (Float.ofNat d.mantissa).scaleB d.exponent
  if d.negative then -magnitude else magnitude

/-- The magnitude without its fraction. -/
def wholePart (d : Dyadic) : Nat :=
  if 0 ≤ d.exponent then d.mantissa * Nat.pow 2 d.exponent.toNat
  else d.mantissa / Nat.pow 2 (-d.exponent).toNat

/-- The integer next to the value on the side of zero. -/
def truncate (d : Dyadic) : Int :=
  if d.negative then -(d.wholePart : Int) else d.wholePart

/-- Remainder of a division that rounds toward zero; it has the sign of the dividend. -/
def remainder (x y : Dyadic) : Dyadic :=
  let exponent := min x.exponent y.exponent
  let scaled (d : Dyadic) := d.mantissa * Nat.pow 2 (d.exponent - exponent).toNat
  ⟨x.negative, scaled x % scaled y, exponent⟩

end Dyadic

end Vimlet
