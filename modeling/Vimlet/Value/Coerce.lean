import Vimlet.Number.Math
import Vimlet.Value.Printer

/-!
# Conversions

The weak typing of the language: which values stand for truth, for integers and for numbers.
-/

namespace Vimlet

/-- Bounds of a machine word: a position beyond them is refused where a list must grow. -/
def maxWord : Int := 9223372036854775807

def minWord : Int := -9223372036854775808

/-- The double nearest to an integer, an infinity if it is out of range. -/
def floatOfInt (n : Int) : Float :=
  if n < 0 then -(ofDecimal n.natAbs 0) else ofDecimal n.natAbs 0

/-- The integer part of a double; infinities give the bounds of a machine word and NaN gives zero.
-/
def intOfFloat (x : Float) : Int :=
  match Dyadic.ofFloat? x with
  | some d => d.truncate
  | none => if x.isNaN then 0 else if x < 0 then minWord else maxWord

namespace Value

/-- Only a Bool, or an Integer that is 0 or 1. -/
def asBool : Value → Except Fault Bool
  | bool b => .ok b
  | integer n =>
    if n == 0 then .ok false else if n == 1 then .ok true else .error (.notABool .integer)
  | value => .error (.notABool value.kind)

/-- The integer that a value counts as. -/
def toInt : Value → Except Fault Int
  | bool b => .ok (if b then 1 else 0)
  | integer n => .ok n
  | number x => .ok (intOfFloat x)
  | nil => .ok 0
  | value => .error (.wrongKind .integer value.kind)

/-- The number that a value counts as. -/
def toNumber : Value → Except Fault Float
  | bool b => .ok (if b then 1.0 else 0.0)
  | integer n => .ok (floatOfInt n)
  | number x => .ok x
  | nil => .ok 0.0
  | value => .error (.wrongKind .number value.kind)

end Value

namespace Heap

/-- The truth of a value, given which function references are true. -/
def truthOf (heap : Heap) (functionExists : FuncRef → Bool) : Value → Bool
  | .nil => false
  | .bool b => b
  | .integer n => n != 0
  | .number x => x != 0
  | .str text => text != ""
  | .list cell => !(heap.list cell).isEmpty
  | .object cell => !(heap.object cell).entries.isEmpty
  | .function ref => functionExists ref

/-- The length of a value: of a container, of a string, or of the text of a number. -/
def length (heap : Heap) : Value → Except Fault Nat
  | .str text => .ok text.length
  | .list cell => .ok (heap.list cell).length
  | .object cell => .ok (heap.object cell).size
  | .integer n => .ok (integerText n).length
  | .number x => .ok (NumberFormat.script.text x).length
  | .nil => .ok 0
  | value => .error (.wrongKind .list value.kind)

end Heap

end Vimlet
