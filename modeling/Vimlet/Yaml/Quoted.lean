import Vimlet.Number.Reading
import Vimlet.Yaml.Cursor

/-!
# Quoted scalars

A line break between the quotes folds into a space, further ones stay. Between single quotes a quote
is written twice; between double quotes a backslash starts an escape.
-/

namespace Vimlet

namespace Yaml

/-- The character that an escape of one letter stands for. -/
def unescape? : Char → Option Char
  | '0' => some '\x00'
  | 'a' => some '\x07'
  | 'b' => some '\x08'
  | 't' | '\t' => some '\t'
  | 'n' => some '\n'
  | 'v' => some '\x0b'
  | 'f' => some '\x0c'
  | 'r' => some '\r'
  | 'e' => some '\x1b'
  | ' ' => some ' '
  | '"' => some '"'
  | '\\' => some '\\'
  | '/' => some '/'
  | 'N' => some '\x85'
  | '_' => some '\xa0'
  | 'L' => some '\u2028'
  | 'P' => some '\u2029'
  | _ => none

/-- How many hexadecimal digits follow the letter of an escape. -/
def escapeWidth? : Char → Option Nat
  | 'x' => some 2
  | 'u' => some 4
  | 'U' => some 8
  | _ => none

/-- The character with a code in hexadecimal digits. A code that no character has is beyond the
machine. -/
def ofHexCode (width : Nat) (text : List Char) : Except Stop Char := do
  let digits := (text.take width).filterMap hexValue?
  if digits.length ≠ width then throw refusal
  let code := ofDigitValues 16 digits
  if code.isValidChar then return Char.ofNat code else throw .internal

/-- The character that stands for the end of a line, and the text after it. -/
def splitBreak? (text : List Char) : Option (Char × List Char) :=
  (Cursor.lineBreak? { rest := text }).map fun (c, cursor) => (c, cursor.rest)

/-- The ends of the empty lines that follow. A line that separates documents must not follow. -/
def emptyLines : Nat → List Char → Except Stop (List Char × List Char)
  | 0, _ => throw refusal
  | fuel + 1, text => do
    if atMarker text then throw refusal
    let text := text.dropWhile fun c => c == ' ' || c == '\t'
    match splitBreak? text with
    | some (newline, rest) =>
      let (breaks, rest) ← emptyLines fuel rest
      return (newline :: breaks, rest)
    | none => return ([], text)

/-- What a line end and the empty lines after it fold into. -/
def foldBreaks (newline : Char) (breaks : List Char) : List Char :=
  if newline ≠ '\n' then newline :: breaks else if breaks.isEmpty then [' '] else breaks

/-- The text up to the closing quote and the text after it, found within `fuel` steps. -/
def quotedWithin (quote : Char) : Nat → List Char → Except Stop (List Char × List Char)
  | 0, _ => throw refusal
  | fuel + 1, text => do
    match text with
    | [] => throw refusal
    | '\\' :: rest =>
      if quote ≠ '"' then more ['\\'] fuel rest
      else match rest with
        | [] => throw refusal
        | c :: after =>
          match unescape? c, escapeWidth? c, splitBreak? rest with
          | some character, _, _ => more [character] fuel after
          | none, some width, _ =>
            let character ← ofHexCode width after
            more [character] fuel (after.drop width)
          | none, none, some (_, after) =>
            let (breaks, after) ← emptyLines (fuel + 1) after
            more breaks fuel after
          | none, none, none => throw refusal
    | c :: rest =>
      if c == quote then
        if quote == '\'' && rest.head? == some '\'' then more ['\''] fuel rest.tail
        else return ([], rest)
      else if c == ' ' || c == '\t' || isBreak c then
        let blanks := text.takeWhile fun c => c == ' ' || c == '\t'
        let after := text.dropWhile fun c => c == ' ' || c == '\t'
        match splitBreak? after with
        | some (newline, after) =>
          let (breaks, after) ← emptyLines (fuel + 1) after
          more (foldBreaks newline breaks) fuel after
        | none => more blanks fuel after
      else more [c] fuel rest
where
  more (chars : List Char) (fuel : Nat) (rest : List Char) :
      Except Stop (List Char × List Char) := do
    let (text, rest) ← quotedWithin quote fuel rest
    return (chars ++ text, rest)

/-- Scans a scalar after its quotation mark. -/
def quoted (quote : Char) (text : List Char) : Except Stop (List Char × List Char) :=
  quotedWithin quote (text.length + 1) text

end Yaml

end Vimlet
