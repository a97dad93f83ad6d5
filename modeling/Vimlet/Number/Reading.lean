import Vimlet.Text.Blank
import Vimlet.Text.Numeral
import Vimlet.Number.Dyadic

/-!
# Reading numbers

Decimal text of any script, with single underscores between digits and blanks around it, read as a
double rounded to the nearest.
-/

namespace Vimlet

/-- The infinite Number. -/
def infinity : Float := 1.0 / 0.0

/-- What is not a number. -/
def notANumber : Float := 0.0 / 0.0

/-- The value of a hexadecimal digit. -/
def hexValue? (c : Char) : Option Nat :=
  if '0' ≤ c && c ≤ '9' then some (c.toNat - '0'.toNat)
  else if 'a' ≤ c && c ≤ 'f' then some (c.toNat - 'a'.toNat + 10)
  else if 'A' ≤ c && c ≤ 'F' then some (c.toNat - 'A'.toNat + 10)
  else none

/-- The number that digits spell in a base, the most significant first. -/
def ofDigitValues (base : Nat) (values : List Nat) : Nat :=
  values.foldl (fun total value => total * base + value) 0

/-- The number that decimal digits of any script spell. -/
def ofDecimalDigits (digits : List Char) : Nat :=
  ofDigitValues 10 (digits.map fun c => (Text.decimalValue? c).getD 0)

/-- The double nearest to `significand * 10 ^ exponent`. -/
def ofDecimal (significand : Nat) (exponent : Int) : Float :=
  let magnitude := (Nat.toDigits 10 significand).length + exponent
  if significand == 0 || magnitude < -400 then 0.0
  else if 400 < magnitude then infinity
  else Float.ofScientific significand (exponent < 0) exponent.natAbs

/-- A blank that may stand around the text of a number. -/
def isNumberBlank (c : Char) : Bool := Text.isBlank c && !(0x1C ≤ c.toNat && c.toNat ≤ 0x1F)

/-- Removes underscores, each of which must stand between two digits. -/
def dropUnderscores (previousIsDigit : Bool) : List Char → Option (List Char)
  | [] => some []
  | '_' :: next :: rest =>
    if previousIsDigit && Text.isDecimal next then
      (dropUnderscores true rest).map (next :: ·)
    else none
  | c :: rest =>
    if c == '_' then none else (dropUnderscores (Text.isDecimal c) rest).map (c :: ·)

/-- Whether a minus sign comes first, and the rest. -/
def splitSign : List Char → Bool × List Char
  | '-' :: rest => (true, rest)
  | '+' :: rest => (false, rest)
  | text => (false, text)

/-- The power of ten after the digits. -/
def readExponent? : List Char → Option Int
  | [] => some 0
  | mark :: rest =>
    let (negative, digits) := splitSign rest
    if (mark == 'e' || mark == 'E') && !digits.isEmpty && digits.all Text.isDecimal then
      let power : Int := ofDecimalDigits digits
      some (if negative then -power else power)
    else none

/-- Reads digits with an optional point and exponent. -/
def readUnsigned? (text : List Char) : Option Float :=
  let whole := text.takeWhile Text.isDecimal
  let afterWhole := text.dropWhile Text.isDecimal
  let (fraction, rest) :=
    match afterWhole with
    | '.' :: rest => (rest.takeWhile Text.isDecimal, rest.dropWhile Text.isDecimal)
    | rest => ([], rest)
  if whole.isEmpty && fraction.isEmpty then none
  else (readExponent? rest).map fun power =>
    ofDecimal (ofDecimalDigits (whole ++ fraction)) (power - fraction.length)

/-- Reads an infinity or a NaN in any case, or digits. -/
def readMagnitude? (text : List Char) : Option Float :=
  let name := String.ofList (text.map Char.toLower)
  if name == "inf" || name == "infinity" then some infinity
  else if name == "nan" then some notANumber
  else readUnsigned? text

/-- Reads a double, or nothing if the text is not a number. -/
def readFloat? (text : List Char) : Option Float := do
  let trimmed := Text.dropTrailing isNumberBlank (Text.dropLeading isNumberBlank text)
  let plain ← dropUnderscores false trimmed
  let (negative, magnitude) := splitSign plain
  let value ← readMagnitude? magnitude
  some (if negative then -value else value)

end Vimlet
