import Vimlet.Document
import Vimlet.Text.Base64
import Vimlet.Text.Split
import Vimlet.Text.Utf8
import Vimlet.Value.Coerce
import Vimlet.Yaml.Quoted
import Vimlet.Yaml.Timestamp

/-!
# Scalars of YAML

A plain scalar has the first meaning whose form its text has. A tag gives a scalar a meaning
regardless of its form.
-/

namespace Vimlet

namespace Yaml

/-- What a scalar stands for. -/
inductive Meaning where
  | null
  | bool
  | integer
  | float
  | timestamp
  | binary
  | text
  | merge
  | default
deriving DecidableEq, Repr

namespace Meaning

/-- The meaning that a tag gives. -/
def ofTag? : String → Option Meaning
  | "!!null" => some null
  | "!!bool" => some bool
  | "!!int" => some integer
  | "!!float" => some float
  | "!!timestamp" => some timestamp
  | "!!binary" => some binary
  | "!!str" => some text
  | _ => none

/-- The truth value of a word. -/
def truth? (word : String) : Option Bool :=
  if ["yes", "true", "on"].contains word then some true
  else if ["no", "false", "off"].contains word then some false
  else none

/-- A word in lowercase, with an uppercase initial, or in uppercase. -/
def isWordLike (word : List Char) : Bool :=
  word.tail.all (!·.isUpper) || word.all (!·.isLower)

def lowered (word : List Char) : String := String.ofList (word.map Char.toLower)

def isBool (chars : List Char) : Bool := (truth? (lowered chars)).isSome && isWordLike chars

def isNull (chars : List Char) : Bool :=
  chars.isEmpty || chars == ['~'] || (lowered chars == "null" && isWordLike chars)

/-- Drops a sign. -/
def unsigned : List Char → List Char
  | '+' :: rest | '-' :: rest => rest
  | chars => chars

def isDigitOrLow (c : Char) : Bool := c.isDigit || c == '_'

/-- A number below sixty in one or two digits. -/
def isSixtieth : List Char → Bool
  | [c] => c.isDigit
  | [c, d] => '0' ≤ c && c ≤ '5' && d.isDigit
  | _ => false

/-- A number in base sixty, whose first part has a given form. -/
def isSexagesimal (isFirst : List Char → Bool) (chars : List Char) : Bool :=
  match Text.split [':'] chars with
  | first :: second :: rest => isFirst first && (second :: rest).all isSixtieth
  | _ => false

def isWhole : List Char → Bool
  | c :: rest => '1' ≤ c && c ≤ '9' && rest.all isDigitOrLow
  | [] => false

/-- A form of a whole number without sign. -/
def isUnsignedInteger (chars : List Char) : Bool :=
  match chars with
  | ['0'] => true
  | '0' :: 'b' :: rest => !rest.isEmpty && rest.all fun c => c == '0' || c == '1' || c == '_'
  | '0' :: 'x' :: rest => !rest.isEmpty && rest.all fun c => (hexValue? c).isSome || c == '_'
  | '0' :: rest => rest.all fun c => ('0' ≤ c && c ≤ '7') || c == '_'
  | chars => isWhole chars || isSexagesimal isWhole chars

def isInteger (chars : List Char) : Bool := isUnsignedInteger (unsigned chars)

/-- A power of ten with a sign, or nothing. -/
def isPower : List Char → Bool
  | [] => true
  | [_] | [_, _] => false
  | e :: sign :: digits =>
    (e == 'e' || e == 'E') && (sign == '+' || sign == '-') && digits.all Char.isDigit

/-- Digits, underscores and a power of ten. -/
def isFraction (chars : List Char) : Bool := isPower (chars.dropWhile isDigitOrLow)

def isDigits : List Char → Bool
  | c :: rest => c.isDigit && rest.all isDigitOrLow
  | [] => false

/-- A form of a number without sign that has a point. -/
def isUnsignedFloat (chars : List Char) : Bool :=
  let whole := chars.takeWhile (· != '.')
  let fraction := (chars.dropWhile (· != '.')).tail
  chars.contains '.' &&
    ((isDigits whole && isFraction fraction) ||
      (isSexagesimal isDigits whole && fraction.all isDigitOrLow))

def isFloat (chars : List Char) : Bool :=
  [".inf", ".Inf", ".INF"].contains (String.ofList (unsigned chars)) ||
    [".nan", ".NaN", ".NAN"].contains (String.ofList chars) ||
    isUnsignedFloat (unsigned chars) ||
    match chars with
    | '.' :: c :: rest => c.isDigit && isFraction rest
    | _ => false

/-- The meaning of a plain scalar without a tag. -/
def ofPlain (chars : List Char) : Meaning :=
  if isBool chars then bool
  else if isFloat chars then float
  else if isInteger chars then integer
  else if chars == ['<', '<'] then merge
  else if isNull chars then null
  else if (Timestamp.parse? chars).isSome then timestamp
  else if chars == ['='] then default
  else text

end Meaning

/-! ### Values -/

/-- The value of digits in a base, of which there must be one. -/
def digitsValue? (base : Nat) (digits : List Char) : Option Nat := do
  if digits.isEmpty then failure
  let values ← digits.mapM hexValue?
  if values.all (· < base) then return ofDigitValues base values
  else failure

def integerValue? (chars : List Char) : Option Nat :=
  match chars with
  | ['0'] => some 0
  | '0' :: 'b' :: digits => digitsValue? 2 digits
  | '0' :: 'x' :: digits => digitsValue? 16 digits
  | '0' :: digits => digitsValue? 8 digits
  | chars => do
    let parts ← (Text.split [':'] chars).mapM (digitsValue? 10)
    return parts.foldl (fun n part => n * 60 + part) 0

/-- The sum of parts, the last first, each sixty times as large as the one before. -/
def sexagesimal : Float → Float → List Float → Float
  | sum, _, [] => sum
  | sum, unit, part :: rest => sexagesimal (sum + part * unit) (unit * 60.0) rest

def floatValue? (chars : List Char) : Option Float :=
  match String.ofList chars with
  | ".inf" => some infinity
  | ".nan" => some notANumber
  | _ =>
    match Text.split [':'] chars with
    | [chars] => readFloat? chars
    | parts => do return sexagesimal 0.0 1.0 (← parts.mapM readFloat?).reverse

/-- Some value, or else a stop that scripts do not see. -/
def orInternal {α : Type} : Option α → Except Stop α
  | some value => .ok value
  | none => .error .internal

/-- Drops the low lines between digits. -/
def withoutLow (text : List Char) : List Char := text.filter (· != '_')

/-- The data that a scalar stands for. -/
inductive Scalar where
  | null
  | bool (b : Bool)
  | integer (n : Int)
  | number (x : Float)
  | timestamp (stamp : Timestamp)
  | binary (bytes : List Nat)
  | text (text : String)
deriving Repr

/-- The scalar that a text stands for, given its meaning. -/
def Meaning.read (meaning : Meaning) (text : String) : Except Stop Scalar := do
  let chars := text.toList
  match meaning with
  | null => return .null
  | bool => return .bool (← orInternal (truth? (lowered chars)))
  | integer =>
    let chars := withoutLow chars
    let n ← orInternal (integerValue? (unsigned chars))
    return .integer (if chars.head? == some '-' then -n else n)
  | float =>
    let chars := (withoutLow chars).map Char.toLower
    let x ← orInternal (floatValue? (unsigned chars))
    return .number (if chars.head? == some '-' then -x else x)
  | timestamp =>
    let stamp ← orInternal (Timestamp.parse? chars)
    if stamp.isValid then return .timestamp stamp else throw .internal
  | binary =>
    match if chars.all (·.toNat < 128) then Base64.decode? chars else none with
    | some bytes => return .binary bytes
    | none => throw refusal
  | Meaning.text => return .text text
  | merge | default => throw refusal

namespace Scalar

def document : Scalar → Document
  | null => .null
  | bool b => .bool b
  | integer n => .integer n
  | number x => .number x
  | timestamp stamp => .text stamp.text
  | binary bytes => .text (Utf8.decode bytes)
  | text content => .text content

/-- A scalar as a key. -/
def keyText : Scalar → String
  | null => "None"
  | bool b => if b then "True" else "False"
  | integer n => integerText n
  | number x => NumberFormat.script.text x
  | timestamp stamp => stamp.text
  | binary bytes => Text.quotedBytes bytes
  | text content => content

/-- The whole number that a scalar is, if it is one. Truth values count as numbers. -/
def whole? : Scalar → Option Int
  | bool b => some (if b then 1 else 0)
  | integer n => some n
  | number x =>
    match Dyadic.ofFloat? x with
    | some d => if floatOfInt d.truncate == x then some d.truncate else none
    | none => none
  | _ => none

/-- Two scalars are the same key. -/
def sameKey (a b : Scalar) : Bool :=
  match whole? a, whole? b with
  | some m, some n => m == n
  | none, none =>
    match a, b with
    | null, null => true
    | number x, number y => x == y || (x.isNaN && y.isNaN)
    | timestamp s, timestamp t => s.same t
    | binary s, binary t => s == t
    | text s, text t => s == t
    | _, _ => false
  | _, _ => false

end Scalar

end Yaml

end Vimlet
