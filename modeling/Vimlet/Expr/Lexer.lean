import Vimlet.Expr.Token
import Vimlet.Fault
import Vimlet.Number.Reading

/-!
# Reading expressions

The tokens of an expression text. Strings in double quotes have escapes, strings in single quotes
double their quotes; numbers are decimal, hexadecimal, octal, binary or have a decimal point.
-/

namespace Vimlet.Lexer

/-- The character that an escape in double quotes stands for. -/
def unescape : Char → Char
  | 'n' => '\n'
  | 't' => '\t'
  | 'r' => '\r'
  | 'e' => '\x1b'
  | '0' => '\x00'
  | c => c

/-- Reads a string in double quotes up to its end, and the text after it. -/
def doubleQuoted : List Char → Option (List Char × List Char)
  | [] => none
  | '\\' :: c :: rest => (doubleQuoted rest).map fun (text, rest) => (unescape c :: text, rest)
  | '"' :: rest => some ([], rest)
  | c :: rest => (doubleQuoted rest).map fun (text, rest) => (c :: text, rest)

/-- Reads a string in single quotes up to its end, and the text after it. -/
def singleQuoted : List Char → Option (List Char × List Char)
  | [] => none
  | '\\' :: '\'' :: rest => (singleQuoted rest).map fun (text, rest) => ('\'' :: text, rest)
  | '\'' :: '\'' :: rest => (singleQuoted rest).map fun (text, rest) => ('\'' :: text, rest)
  | '\'' :: rest => some ([], rest)
  | c :: rest => (singleQuoted rest).map fun (text, rest) => (c :: text, rest)

/-- The value of a digit in a base. -/
def digitValue? (base : Nat) (c : Char) : Option Nat := (hexValue? c).filter (· < base)

/-- The character is a digit in a base. -/
def isBaseDigit (base : Nat) (c : Char) : Bool := (digitValue? base c).isSome

/-- The base that the letter after a zero selects. -/
def baseOfLetter? (c : Char) : Option Nat :=
  if c == 'x' || c == 'X' then some 16
  else if c == 'o' || c == 'O' then some 8
  else if c == 'b' || c == 'B' then some 2
  else none

/-- Reads a number with the letter of a base and at least one digit. -/
def basedNumber? : List Char → Option (Value × List Char)
  | '0' :: letter :: rest => do
    let base ← baseOfLetter? letter
    let digits := rest.takeWhile (isBaseDigit base)
    if digits.isEmpty then none
    else
      let value := ofDigitValues base (digits.filterMap (digitValue? base))
      some (.integer value, rest.dropWhile (isBaseDigit base))
  | _ => none

/-- Splits an exponent with at least one digit off; without one the exponent is zero. -/
def splitPower (text : List Char) : Int × List Char :=
  match text with
  | mark :: rest =>
    let (negative, rest) := splitSign rest
    let digits := rest.takeWhile Text.isDecimal
    if (mark == 'e' || mark == 'E') && !digits.isEmpty then
      let power : Int := ofDecimalDigits digits
      (if negative then -power else power, rest.dropWhile Text.isDecimal)
    else (0, text)
  | [] => (0, text)

/-- Reads a number with a point between digits. -/
def pointNumber? (text : List Char) : Option (Value × List Char) :=
  let whole := text.takeWhile Text.isDecimal
  match text.dropWhile Text.isDecimal with
  | '.' :: rest =>
    let fraction := rest.takeWhile Text.isDecimal
    if whole.isEmpty || fraction.isEmpty then none
    else
      let (power, rest) := splitPower (rest.dropWhile Text.isDecimal)
      let value := ofDecimal (ofDecimalDigits (whole ++ fraction)) (power - fraction.length)
      some (.number value, rest)
  | _ => none

/-- The decimal number at the start of a text, and the rest. -/
def wholeNumber? (text : List Char) : Option (Value × List Char) :=
  let digits := text.takeWhile Text.isDecimal
  if digits.isEmpty then none
  else some (.integer (ofDecimalDigits digits), text.dropWhile Text.isDecimal)

/-- Reads a number. A digit that has no positional value starts none. -/
def number? (text : List Char) : Option (Value × List Char) :=
  (basedNumber? text).or ((pointNumber? text).or (wholeNumber? text))

def continuesName (c : Char) : Bool := Text.isAlphanumeric c || c == '_' || c == ':' || c == '#'

def startsName (c : Char) : Bool := Text.isLetter c || c == '_'

/-- The operator at the start of a text, and the rest. -/
def operator? : List Char → Option (Op × List Char)
  | c :: d :: rest =>
    match Op.ofPair? c d with
    | some op => some (op, rest)
    | none => (Op.ofChar? c).map fun op => (op, d :: rest)
  | [c] => (Op.ofChar? c).map fun op => (op, [])
  | [] => none

/-- Reads the token at the start of a text whose first character is not blank. -/
def token (text : List Char) : Except Stop (Token × List Char) :=
  match text with
  | [] => .error .internal
  | c :: rest =>
    if c == '"' || c == '\'' then
      match if c == '"' then doubleQuoted rest else singleQuoted rest with
      | some (content, rest) => .ok (.val (.str (String.ofList content)), rest)
      | none => .error (.fault (.unterminatedString (String.ofList text)))
    else if Text.isDigit c then
      match number? text with
      | some (value, rest) => .ok (.val value, rest)
      | none => .error .internal
    else if startsName c then
      .ok (.var (String.ofList (c :: rest.takeWhile continuesName)), rest.dropWhile continuesName)
    else
      match operator? text with
      | some (op, rest) => .ok (.op op, rest)
      | none => .error (.fault (.unexpectedSymbol c))

/-- The tokens of a text, with fuel. -/
def tokensWithin : Nat → List Char → Except Stop (List Token)
  | 0, _ => .ok []
  | fuel + 1, text =>
    match text.dropWhile Text.isBlank with
    | [] => .ok []
    | text => do
      let (first, rest) ← token text
      return first :: (← tokensWithin fuel rest)

/-- The tokens of a text. Each token takes at least one character. -/
def tokens (text : List Char) : Except Stop (List Token) := tokensWithin text.length text

end Vimlet.Lexer

namespace Vimlet

/-- The tokens of an expression. -/
def lex (text : String) : Except Stop (List Token) := Lexer.tokens text.toList

end Vimlet
