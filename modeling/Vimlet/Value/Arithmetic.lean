import Vimlet.Value.Coerce

/-!
# Arithmetic

Two Integers give an Integer of any size; any other operands are converted to Numbers.
-/

namespace Vimlet.Value

/-- Applies an operation on Integers if both operands are Integers, else one on Numbers. -/
def arithmetic (onInts : Int → Int → Except Fault Int)
    (onNumbers : Float → Float → Except Fault Float)
    (a b : Value) : Except Fault Value :=
  match a, b with
  | integer m, integer n => integer <$> onInts m n
  | _, _ => do number <$> onNumbers (← a.toNumber) (← b.toNumber)

def add : Value → Value → Except Fault Value :=
  arithmetic (fun m n => .ok (m + n)) (fun x y => .ok (x + y))

def sub : Value → Value → Except Fault Value :=
  arithmetic (fun m n => .ok (m - n)) (fun x y => .ok (x - y))

def mul : Value → Value → Except Fault Value :=
  arithmetic (fun m n => .ok (m * n)) (fun x y => .ok (x * y))

/-- Divides numbers, Integers towards zero. -/
def div : Value → Value → Except Fault Value :=
  arithmetic (fun m n => if n = 0 then .error .divisionByZero else .ok (m.tdiv n))
    (fun x y => if y == 0 then .error .divisionByZero else .ok (x / y))

/-- Remainder, with the sign of the dividend. -/
def mod : Value → Value → Except Fault Value :=
  arithmetic (fun m n => if n = 0 then .error .divisionByZero else .ok (m.tmod n))
    (fun x y => if y == 0 then .error .divisionByZero else .ok (Math.remainder x y))

def negate : Value → Except Fault Value
  | integer n => .ok (integer (-n))
  | value => do return number (-(← value.toNumber))

/-- Strictly less; values of different kinds are not comparable. -/
def less : Value → Value → Bool
  | integer m, integer n => m < n
  | number x, number y => x < y
  | str s, str t => s < t
  | _, _ => false

/-- Less or equal; values of different kinds are not comparable. -/
def lessEq : Value → Value → Bool
  | integer m, integer n => m ≤ n
  | number x, number y => x ≤ y
  | str s, str t => s ≤ t
  | _, _ => false

end Vimlet.Value
