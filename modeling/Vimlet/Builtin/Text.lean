import Vimlet.Builtin.Basic
import Vimlet.Expr.Lexer
import Vimlet.Json.Reader
import Vimlet.Json.Writer
import Vimlet.Text.Case
import Vimlet.Text.Split
import Vimlet.Value.Container

/-!
# Functions on text

Integers are read at any length: a limit on their digits, such as 4300, is left out.
-/

namespace Vimlet.TextFunction

/-- Elements and characters that a repetition may have. -/
def maxRepeated : Nat := 2147483648

/-- Repeats elements; a repetition that the machine cannot hold stops. -/
def repeatItems {α : Type} (items : List α) (count : Int) : Mem (List α) :=
  if maxWord < count then throw .internal
  else if items.isEmpty then return []
  else if (maxRepeated : Int) < items.length * count then throw .internal
  else return (List.replicate count.toNat items).flatten

/-- The place of a needle in a text from a position on, or -1. -/
def findPlace (text needle : List Char) (start : Int) : Int :=
  let start := if start < 0 then max (text.length + start) 0 else start
  if (text.length : Int) < start then -1
  else
    match Text.findFrom needle start.toNat (text.drop start.toNat) with
    | some place => place
    | none => -1

/-- Drops the letters that stand before the digits of a base. -/
def dropBaseLetters (base : Nat) : List Char → List Char
  | '0' :: letter :: rest =>
    if Lexer.baseOfLetter? letter == some base then rest else '0' :: letter :: rest
  | text => text

/-- Reads signs, the letters of a base and as many digits as there are. -/
def readInteger (base : Nat) (text : List Char) : Int :=
  let text := Text.trim text
  let negative := text.head? == some '-'
  let digits := dropBaseLetters base (text.dropWhile fun c => c == '+' || c == '-')
  let values := (digits.takeWhile (Lexer.isBaseDigit base)).filterMap (Lexer.digitValue? base)
  let magnitude : Int := ofDigitValues base values
  if negative then -magnitude else magnitude

/-- The number that the longest possible part at the start of a text spells; `backwards` is the text
backwards. -/
def longestNumber : List Char → Float
  | [] => 0.0
  | c :: shorter =>
    match readFloat? (c :: shorter).reverse with
    | some x => x
    | none => longestNumber shorter

/-- The parts of a text, with or without the empty ones. -/
def splitText (text separator : List Char) (keepEmpty : Bool) : List (List Char) :=
  let parts := if separator.isEmpty then Text.words text else Text.split separator text
  if keepEmpty then parts else parts.filter (!·.isEmpty)

/-- The value that a text in JSON stands for. -/
def decodeJson (text : String) : Mem Value := do
  Mem.ofDocument (← Mem.ofExcept (Json.read text))

/-- The code point of the first character. -/
def firstCode (text : String) : Nat := (text.toList.head?.map Char.toNat).getD 0

/-- The character with a code point. -/
def charOfCode (code : Int) : Except Fault Value :=
  if code < 0 || 0x10FFFF < code || (0xD800 ≤ code && code ≤ 0xDFFF) then
    .error (.notACharacter code)
  else .ok (charValue (Char.ofNat code.toNat))

/-- Reads an integer in one of four bases. -/
def textToInteger (text : String) (base : Int) : Except Fault Value :=
  if base == 2 || base == 8 || base == 10 || base == 16 then
    .ok (.integer (readInteger base.toNat text.toList))
  else .error (.notABase base)

/-- The texts of the items with a separator between them. -/
def joinItems (items : Value) (separator : String) : Mem Value := do
  match items with
  | .list cell =>
    let heap ← get
    return .str (separator.intercalate ((heap.list cell).map heap.text))
  | _ => Mem.fault (.wrongKind .list items.kind)

/-- The parts of a text as a new List. -/
def splitToList (text separator keepEmpty : Value) : Mem Value := do
  let heap ← get
  let keep := heap.truthOf (fun _ => true) keepEmpty
  let parts := splitText (heap.text text).toList (heap.text separator).toList keep
  Mem.newList (parts.map fun part => .str (String.ofList part))

/-- Applies a function on texts. -/
def apply (f : TextFunction) (args : List Value) : Mem Value := do
  match f, args with
  | char2nr, [a] => return .integer (firstCode (← Mem.text a))
  | nr2char, [n] => do Mem.ofExcept (charOfCode (← Mem.ofExcept n.toInt))
  | tolower, [a] => return .str (Text.lower (← Mem.text a))
  | toupper, [a] => return .str (Text.upper (← Mem.text a))
  | strlen, [a] => return .integer (← Mem.text a).utf8ByteSize
  | strchars, [a] => return .integer (← Mem.text a).length
  | trim, [a] => return .str (Text.strip (← Mem.text a))
  | stridx, text :: needle :: start =>
    let text ← Mem.text text
    let needle ← Mem.text needle
    let start ← Mem.ofExcept (start.headD .nil).toInt
    return .integer (findPlace text.toList needle.toList start)
  | .repeat, [a, count] =>
    let count := max (← Mem.ofExcept count.toInt) 0
    match a with
    | .list cell => Mem.newList (← repeatItems ((← get).list cell) count)
    | a => return .str (String.ofList (← repeatItems (← Mem.text a).toList count))
  | str2nr, text :: base =>
    let text ← Mem.text text
    Mem.ofExcept (do textToInteger text (← (base.headD (.integer 10)).toInt))
  | str2float, [a] => return .number (longestNumber (Text.trim (← Mem.text a).toList).reverse)
  | split, [text] => splitToList text .nil .nil
  | split, [text, separator] => splitToList text separator .nil
  | split, [text, separator, keepEmpty] => splitToList text separator keepEmpty
  | join, items :: separator => do joinItems items (← Mem.text (separator.headD (.str " ")))
  | string, [a] => return .str (← Mem.display a)
  | jsonEncode, [a] =>
    return .str (Json.write .compact (← Mem.ofExcept ((← get).document a)))
  | jsonDecode, [a] => do decodeJson (← Mem.text a)
  | _, _ => throw .internal

end Vimlet.TextFunction
