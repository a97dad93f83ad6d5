import Vimlet.Document
import Vimlet.Number.Reading

/-!
# Reading JSON

A document from JSON text. Besides standard JSON the names of the numbers that are not finite are
read. A text that is not JSON is refused with a problem and the position of a character.
-/

namespace Vimlet.Json

/-- Why a text is refused. -/
structure Problem where
  message : String
  /-- The position of the character where it was noticed. -/
  position : Nat
deriving DecidableEq, Repr

/-- The rest of a text with the position of its first character. -/
structure Cursor where
  rest : List Char
  position : Nat
deriving DecidableEq, Repr

def isSpace (c : Char) : Bool := c == ' ' || c == '\t' || c == '\n' || c == '\r'

namespace Cursor

/-- Goes over characters. -/
def advance (cursor : Cursor) (count : Nat) : Cursor :=
  ⟨cursor.rest.drop count, cursor.position + count⟩

/-- Goes over the space before a token. -/
def skipSpaces (cursor : Cursor) : Cursor :=
  cursor.advance (cursor.rest.takeWhile isSpace).length

/-- Goes over a word. -/
def word? (cursor : Cursor) (word : String) : Option Cursor :=
  if word.toList.isPrefixOf cursor.rest then some (cursor.advance word.length) else none

end Cursor

/-- Refuses a text. -/
def refuse {α : Type} (message : String) (position : Nat) : Except Problem α :=
  .error ⟨message, position⟩

/-! ### Strings -/

/-- The code unit of four hexadecimal digits. -/
def hexUnit? (digits : List Char) : Option Nat := do
  if digits.length < 4 then none
  let values ← (digits.take 4).mapM hexValue?
  return ofDigitValues 16 values

/-- The character that an escaped one stands for. -/
def unescape? : Char → Option Char
  | '"' => some '"'
  | '\\' => some '\\'
  | '/' => some '/'
  | 'b' => some '\x08'
  | 'f' => some '\x0c'
  | 'n' => some '\n'
  | 'r' => some '\r'
  | 't' => some '\t'
  | _ => none

def isHighSurrogate (unit : Nat) : Bool := 0xD800 ≤ unit && unit ≤ 0xDBFF

def isLowSurrogate (unit : Nat) : Bool := 0xDC00 ≤ unit && unit ≤ 0xDFFF

/-- The second unit of a surrogate pair that the text starts with. -/
def pairedUnit? (text : List Char) (position : Nat) : Except Problem (Option Nat) :=
  match text with
  | '\\' :: 'u' :: digits =>
    if digits.length < 5 then .ok none
    else match hexUnit? digits with
      | some unit => .ok (if isLowSurrogate unit then some unit else none)
      | none => refuse "Invalid \\uXXXX escape" (position + 1)
  | _ => .ok none

/-- Reads an escape with four hexadecimal digits after its `u`, and tells how many characters it
took. -/
def unicodeEscape (text : List Char) (position : Nat) : Except Problem (Char × Nat) := do
  let malformed : Except Problem (Char × Nat) := refuse "Invalid \\uXXXX escape" position
  if text.length < 5 then malformed
  else match hexUnit? text with
    | none => malformed
    | some unit =>
      if isHighSurrogate unit then
        match ← pairedUnit? (text.drop 4) (position + 5) with
        | some low => return (Char.ofNat (0x10000 + (unit - 0xD800) * 0x400 + (low - 0xDC00)), 10)
        | none => return (Char.ofNat unit, 4)
      else return (Char.ofNat unit, 4)

/-- Reads the rest of a string; `skip` characters of an escape were read already, and `read` holds
the content backwards. -/
def stringFrom (start : Nat) : Nat → List Char → Nat → List Char → Except Problem (String × Cursor)
  | _, _, _, [] => refuse "Unterminated string starting at" start
  | skip + 1, read, position, _ :: rest => stringFrom start skip read (position + 1) rest
  | 0, read, position, c :: rest =>
    if c == '"' then .ok (String.ofList read.reverse, ⟨rest, position + 1⟩)
    else if c == '\\' then
      match rest with
      | [] => refuse "Unterminated string starting at" start
      | 'u' :: digits => do
        let (c, taken) ← unicodeEscape digits (position + 1)
        stringFrom start (taken + 1) (c :: read) (position + 1) rest
      | letter :: _ =>
        match unescape? letter with
        | some c => stringFrom start 1 (c :: read) (position + 1) rest
        | none => refuse "Invalid \\escape" position
    else if c.toNat < 0x20 then refuse "Invalid control character at" position
    else stringFrom start 0 (c :: read) (position + 1) rest

/-- Reads a text after its quotation mark. -/
def string (cursor : Cursor) : Except Problem (String × Cursor) :=
  stringFrom (cursor.position - 1) 0 [] cursor.position cursor.rest

/-! ### Numbers -/

/-- Reads the digits of an integer: a zero alone, or digits that do not start with one. -/
def wholeDigits? : List Char → Option (List Char)
  | '0' :: _ => some ['0']
  | text =>
    let digits := text.takeWhile Char.isDigit
    if digits.isEmpty then none else some digits

/-- Reads a point with digits after it, or nothing. -/
def fractionDigits : List Char → List Char
  | '.' :: rest => rest.takeWhile Char.isDigit
  | _ => []

/-- Reads an exponent: its value and how many characters it takes. -/
def power? : List Char → Option (Int × Nat)
  | mark :: rest =>
    let (negative, digits) := splitSign rest
    let digits := digits.takeWhile Char.isDigit
    if (mark == 'e' || mark == 'E') && !digits.isEmpty then
      let power : Int := ofDecimalDigits digits
      let signLength := match rest with
        | c :: _ => if c == '+' || c == '-' then 1 else 0
        | [] => 0
      some (if negative then -power else power, 1 + signLength + digits.length)
    else none
  | [] => none

/-- Reads a number. -/
def number? (cursor : Cursor) : Option (Document × Cursor) := do
  let negative := cursor.rest.head? == some '-'
  let start := if negative then cursor.advance 1 else cursor
  let whole ← wholeDigits? start.rest
  let afterWhole := start.advance whole.length
  let fraction := fractionDigits afterWhole.rest
  let afterFraction :=
    if fraction.isEmpty then afterWhole else afterWhole.advance (fraction.length + 1)
  match power? afterFraction.rest with
  | none =>
    if fraction.isEmpty then
      let n : Int := ofDecimalDigits whole
      some (.integer (if negative then -n else n), afterFraction)
    else
      let x := ofDecimal (ofDecimalDigits (whole ++ fraction)) (-fraction.length)
      some (.number (if negative then -x else x), afterFraction)
  | some (power, length) =>
    let x := ofDecimal (ofDecimalDigits (whole ++ fraction)) (power - fraction.length)
    some (.number (if negative then -x else x), afterFraction.advance length)

/-! ### Values -/

/-- The words that stand for values. -/
def words : List (String × Document) :=
  [("null", .null), ("true", .bool true), ("false", .bool false), ("NaN", .number notANumber),
   ("Infinity", .number infinity), ("-Infinity", .number (-infinity))]

/-- Reads a word or a number. -/
def scalar (cursor : Cursor) : Except Problem (Document × Cursor) :=
  let found := words.findSome? fun (word, value) =>
    (cursor.word? word).map fun after => (value, after)
  match found with
  | some found => .ok found
  | none =>
    match number? cursor with
    | some found => .ok found
    | none => refuse "Expecting value" cursor.position

/-- Reads a key, a colon and a value. -/
def entry (value : Cursor → Except Problem (Document × Cursor)) (cursor : Cursor) :
    Except Problem ((String × Document) × Cursor) :=
  match cursor.rest with
  | '"' :: _ => do
    let (key, cursor) ← string (cursor.advance 1)
    let cursor := cursor.skipSpaces
    if cursor.rest.head? != some ':' then refuse "Expecting ':' delimiter" cursor.position
    else
      let (item, cursor) ← value (cursor.advance 1).skipSpaces
      return ((key, item), cursor)
  | _ => refuse "Expecting property name enclosed in double quotes" cursor.position

mutual

/-- Reads a value; `fuel` bounds the nesting and the number of items. -/
def value : Nat → Cursor → Except Problem (Document × Cursor)
  | 0, cursor => refuse "Expecting value" cursor.position
  | fuel + 1, cursor =>
    match cursor.rest with
    | '"' :: _ => do
      let (text, cursor) ← string (cursor.advance 1)
      return (.text text, cursor)
    | '[' :: _ =>
      let inside := (cursor.advance 1).skipSpaces
      if inside.rest.head? == some ']' then .ok (.sequence [], inside.advance 1)
      else do
        let (items, cursor) ← items fuel inside
        return (.sequence items, cursor)
    | '\x7b' :: _ =>
      let inside := (cursor.advance 1).skipSpaces
      if inside.rest.head? == some '\x7d' then .ok (.mapping [], inside.advance 1)
      else do
        let (entries, cursor) ← entries fuel inside
        return (.mapping (Table.ofList entries).entries, cursor)
    | _ => scalar cursor

/-- Reads the items of an array, with fuel. -/
def items : Nat → Cursor → Except Problem ((List Document) × Cursor)
  | 0, cursor => refuse "Expecting value" cursor.position
  | fuel + 1, cursor => do
    let (item, cursor) ← value fuel cursor
    let cursor := cursor.skipSpaces
    match cursor.rest with
    | ']' :: _ => return ([item], cursor.advance 1)
    | ',' :: _ =>
      let (rest, cursor) ← items fuel (cursor.advance 1).skipSpaces
      return (item :: rest, cursor)
    | _ => refuse "Expecting ',' delimiter" cursor.position

/-- Reads the members of an object, with fuel. -/
def entries : Nat → Cursor → Except Problem (List (String × Document) × Cursor)
  | 0, cursor => refuse "Expecting value" cursor.position
  | fuel + 1, cursor => do
    let (item, cursor) ← entry (value fuel) cursor
    let cursor := cursor.skipSpaces
    match cursor.rest with
    | '\x7d' :: _ => return ([item], cursor.advance 1)
    | ',' :: _ =>
      let (rest, cursor) ← entries fuel (cursor.advance 1).skipSpaces
      return (item :: rest, cursor)
    | _ => refuse "Expecting ',' delimiter" cursor.position

end

/-- Reads a document that takes up the whole text. -/
def readChars (text : List Char) : Except Problem Document := do
  if text.head? == some (Char.ofNat 0xFEFF) then
    refuse "Unexpected UTF-8 BOM (decode using utf-8-sig)" 0
  else
    let start : Cursor := ⟨text, 0⟩
    let (document, cursor) ← value (2 * text.length + 2) start.skipSpaces
    let cursor := cursor.skipSpaces
    if cursor.rest.isEmpty then return document
    else refuse "Extra data" cursor.position

/-- The document in a text. -/
def read (text : String) : Except Fault Document :=
  match readChars text.toList with
  | .ok document => .ok document
  | .error problem => .error (.expected (.json problem.message problem.position))

end Vimlet.Json
