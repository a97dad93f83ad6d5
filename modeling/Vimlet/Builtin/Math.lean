import Vimlet.Builtin.Basic
import Vimlet.Number.Bitwise
import Vimlet.Value.Coerce

/-!
# Functions on numbers
-/

namespace Vimlet.MathFunction

/-- Applies a function to a Number. -/
def onNumber (f : Float → Float) (x : Value) : Except Fault Value := do
  return .number (f (← x.toNumber))

def onNumbers (f : Float → Float → Float) (x y : Value) : Except Fault Value := do
  return .number (f (← x.toNumber) (← y.toNumber))

def onIntegers (f : Int → Int → Int) (m n : Value) : Except Fault Value := do
  return .integer (f (← m.toInt) (← n.toInt))

def applyOne (f : MathFunction) (x : Value) : Except Fault Value :=
  match f with
  | float2nr => do return .integer (intOfFloat (← x.toNumber))
  | abs =>
    match x with
    | .integer n => .ok (.integer n.natAbs)
    | x => onNumber Float.abs x
  | round => onNumber Math.round x
  | ceil => onNumber Math.ceil x
  | floor => onNumber Math.floor x
  | trunc => onNumber Math.trunc x
  | exp => onNumber Float.exp x
  | log => onNumber Float.log x
  | log10 => onNumber Float.log10 x
  | sqrt => onNumber Float.sqrt x
  | sin => onNumber Float.sin x
  | cos => onNumber Float.cos x
  | tan => onNumber Float.tan x
  | asin => onNumber Float.asin x
  | acos => onNumber Float.acos x
  | atan => onNumber Float.atan x
  | sinh => onNumber Float.sinh x
  | cosh => onNumber Float.cosh x
  | tanh => onNumber Float.tanh x
  | invert => do return .integer (Bitwise.not (← x.toInt))
  | _ => .ok .nil

def applyTwo (f : MathFunction) (x y : Value) : Except Fault Value :=
  match f with
  | fmod => onNumbers Math.remainder x y
  | pow => onNumbers Math.pow x y
  | atan2 => onNumbers Float.atan2 x y
  | and => onIntegers Bitwise.and x y
  | or => onIntegers Bitwise.or x y
  | xor => onIntegers Bitwise.xor x y
  | _ => .ok .nil

/-- Applies a function on numbers. -/
def apply (f : MathFunction) : List Value → Except Fault Value
  | [x] => f.applyOne x
  | [x, y] => f.applyTwo x y
  | _ => .ok .nil

end Vimlet.MathFunction
