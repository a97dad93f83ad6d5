import Vimlet.Number.Digits

/-!
# Number text

How a double is written: which powers of ten are written positionally, and whether a whole number
keeps a decimal point. Integers are written at any length: a limit on their digits, such as 4300, is
left out.
-/

namespace Vimlet

/-- How Numbers are written. -/
structure NumberFormat where
  digits : Dyadic → Digits
  /-- Powers of ten of the first digit from this one on are written positionally. -/
  positionalFrom : Int
  /-- Powers of ten of the first digit from this one on have an exponent again. -/
  positionalUpTo : Int
  /-- A whole number in positional notation keeps a point and a zero. -/
  keepsPoint : Bool

namespace NumberFormat

/-- Numbers as scripts write them: the fewest digits that read back. -/
def script : NumberFormat := ⟨Digits.shortest, -4, 16, true⟩

/-- Six digits and no superfluous zeros, for durations in messages. -/
def general : NumberFormat := ⟨Digits.rounded 6, -4, 6, false⟩

/-- Digits with a point, and no exponent. -/
def positional (format : NumberFormat) (digits : List Char) (exponent : Int) : List Char :=
  if exponent < 0 then
    '0' :: '.' :: List.replicate (-exponent - 1).toNat '0' ++ digits
  else
    let whole := exponent.toNat + 1
    if digits.length ≤ whole then
      digits ++ List.replicate (whole - digits.length) '0' ++
        (if format.keepsPoint then ['.', '0'] else [])
    else
      digits.take whole ++ '.' :: digits.drop whole

/-- Digits with an exponent of at least two digits. -/
def scientific (digits : List Char) (exponent : Int) : List Char :=
  let point := if digits.length ≤ 1 then digits else digits.take 1 ++ '.' :: digits.drop 1
  let power := Nat.toDigits 10 exponent.natAbs
  let padding := List.replicate (2 - power.length) '0'
  point ++ 'e' :: (if exponent < 0 then '-' else '+') :: padding ++ power

/-- A positive number as it is written. -/
def positive (format : NumberFormat) (d : Dyadic) : List Char :=
  let chosen := format.digits d
  let digits := Nat.toDigits 10 chosen.significand
  if format.positionalFrom ≤ chosen.exponent && chosen.exponent < format.positionalUpTo then
    format.positional digits chosen.exponent
  else
    scientific digits chosen.exponent

/-- A Number as it is written. -/
def text (format : NumberFormat) (x : Float) : String :=
  match Dyadic.ofFloat? x with
  | none => if x.isNaN then "nan" else if x < 0 then "-inf" else "inf"
  | some d =>
    let magnitude :=
      if d.mantissa == 0 then (if format.keepsPoint then ['0', '.', '0'] else ['0'])
      else format.positive d
    String.ofList (if d.negative then '-' :: magnitude else magnitude)

end NumberFormat

/-- An Integer as it is written. -/
def integerText (n : Int) : String :=
  match n with
  | .ofNat n => Nat.repr n
  | .negSucc n => "-" ++ Nat.repr (n + 1)

end Vimlet
