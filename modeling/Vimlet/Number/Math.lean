import Vimlet.Number.Reading

/-!
# Mathematical functions

Total functions on doubles: a domain error gives NaN and an overflow gives an infinity.
-/

namespace Vimlet.Math

/-- The sign of a Number, also of a zero. -/
def signBit (x : Float) : Bool := Nat.pow 2 63 ≤ x.toBits.toNat

/-- A Number with the sign of another one. -/
def copySign (magnitude sign : Float) : Float :=
  if signBit sign then -magnitude.abs else magnitude.abs

/-- Largest integer not above a number; a zero result has no sign. -/
def floor (x : Float) : Float := x.floor + 0.0

/-- Smallest integer not below a number; a zero result has no sign. -/
def ceil (x : Float) : Float := x.ceil + 0.0

/-- The integer next to a number on the side of zero; a zero result has no sign. -/
def trunc (x : Float) : Float := if x < 0 then ceil x else floor x

/-- The nearest integer; a half goes away from zero and the sign is kept. -/
def round (x : Float) : Float :=
  if x.isFinite then copySign (x.abs + 0.5).floor x else x

/-- Remainder of a division that rounds toward zero, NaN for an infinite dividend or a zero
divisor. -/
def remainder (x y : Float) : Float :=
  match Dyadic.ofFloat? x, Dyadic.ofFloat? y with
  | some a, some b => if b.mantissa == 0 then notANumber else (a.remainder b).toFloat
  | some _, none => if y.isNaN then y else x
  | none, _ => notANumber

/-- Power; a zero to a finite negative power is a domain error. -/
def pow (x y : Float) : Float :=
  if x == 0 && y < 0 && y.isFinite then notANumber else x.pow y

end Vimlet.Math
