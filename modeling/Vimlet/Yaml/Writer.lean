import Vimlet.Yaml.Scalar

/-!
# Writing YAML

Data in block style, one entry a line. A text is written without quotes where that reads back as the
text, between single quotes where they suffice, and between double quotes otherwise.
-/

namespace Vimlet

namespace Yaml

/-! ### Texts -/

def isTextBreak (c : Char) : Bool := c == '\n' || c == '\x85' || c == '\u2028' || c == '\u2029'

/-- A character that can stand for itself outside double quotes. -/
def isOrdinary (c : Char) : Bool :=
  c == '\n' || isAllowed c && c != '\t' && c != '\r' && c != '\ufeff' && c.toNat != 0x10FFFF

/-- Characters that start something other than a plain scalar. -/
def isIndicator (c : Char) : Bool := "#,[]\x7b\x7d&*!|>'\"%@`".toList.contains c

/-- A text whose first characters do not start a plain scalar. -/
def startsBadly : List Char → Bool
  | c :: rest => isIndicator c || ("?:-".toList.contains c && atBlank rest)
  | [] => false

/-- A colon before a blank, or a number sign after one, stands in the text; `before` tells whether a
blank stands before it. -/
def breaksOff : Bool → List Char → Bool
  | _, [] => false
  | before, c :: rest =>
    (c == ':' && atBlank rest) || (c == '#' && before) || breaksOff (atBlank [c]) rest

/-- A text starts and ends with other characters than spaces and line breaks. -/
def isTrim (chars : List Char) : Bool :=
  let isOuter (c : Option Char) : Bool := c.all fun c => c != ' ' && !isTextBreak c
  isOuter chars.head? && isOuter chars.getLast?

/-- Two neighbouring characters with the first and the second property stand in the text. -/
def hasPair (first second : Char → Bool) : List Char → Bool
  | c :: d :: rest => (first c && second d) || hasPair first second (d :: rest)
  | _ => false

/-- The text needs no quotation marks. -/
def isPlain (chars : List Char) : Bool :=
  Meaning.ofPlain chars = .text && isTrim chars && chars.all isOrdinary &&
    !chars.any isTextBreak && !startsBadly chars && !breaksOff true chars &&
    !"---".toList.isPrefixOf chars && !"...".toList.isPrefixOf chars

/-- The text reads back between single quotes. -/
def isSingle (chars : List Char) : Bool :=
  chars.all isOrdinary && !hasPair isTextBreak (· == ' ') chars &&
    !hasPair (· == ' ') isTextBreak chars

/-- The letter that a character is escaped with. -/
def escapeLetter? : Char → Option Char
  | '\x00' => some '0'
  | '\x07' => some 'a'
  | '\x08' => some 'b'
  | '\t' => some 't'
  | '\n' => some 'n'
  | '\x0b' => some 'v'
  | '\x0c' => some 'f'
  | '\r' => some 'r'
  | '\x1b' => some 'e'
  | '"' => some '"'
  | '\\' => some '\\'
  | '\x85' => some 'N'
  | '\u2028' => some 'L'
  | '\u2029' => some 'P'
  | _ => none

def hexText (width n : Nat) : List Char :=
  let digits := (Nat.toDigits 16 n).map Char.toUpper
  List.replicate (width - digits.length) '0' ++ digits

def escapeChar (c : Char) : List Char :=
  match escapeLetter? c with
  | some letter => ['\\', letter]
  | none =>
    if (' ' ≤ c && c ≤ '~') || ('\xa0' ≤ c && c ≤ '\ufffd' && c != '\ufeff') then [c]
    else if c.toNat < 0x100 then '\\' :: 'x' :: hexText 2 c.toNat
    else if c.toNat < 0x10000 then '\\' :: 'u' :: hexText 4 c.toNat
    else '\\' :: 'U' :: hexText 8 c.toNat

/-- The lines of a text between single quotes; `broken` tells whether a line break is before, and
`line` is the line so far. -/
def singleLines (broken : Bool) (line : List Char) : List Char → List (List Char)
  | [] => [line ++ ['\'']]
  | c :: rest =>
    if isTextBreak c then
      if broken then line :: singleLines true [] rest
      else line :: [] :: singleLines true [] rest
    else if c == '\'' then singleLines false (line ++ ['\'', '\'']) rest
    else singleLines false (line ++ [c]) rest

/-- A text as it is written. -/
def textLines (text : String) : List String :=
  let chars := text.toList
  if isPlain chars then [text]
  else if isSingle chars then (singleLines false ['\''] chars).map String.ofList
  else [String.ofList ('"' :: chars.flatMap escapeChar ++ ['"'])]

/-! ### Data -/

/-- The text of a number. One with an exponent has a point too. -/
def floatText (x : Float) : String :=
  let text := NumberFormat.script.text x
  if text.toList.contains '.' then text
  else String.ofList (text.toList.flatMap fun c => if c == 'e' then ".0e".toList else [c])

def indented (lines : List String) : List String :=
  lines.map fun line => if line.isEmpty then line else "  " ++ line

/-- Puts a sign before the first line, and indents the other lines. -/
def signed (sign : String) : List String → List String
  | [] => [sign]
  | first :: rest => (sign ++ first) :: indented rest

/-- The key fits on a line before a colon. -/
def isShortKey (key : String) : Bool :=
  !key.isEmpty && !key.toList.any isTextBreak && key.length + "!!str".length < 128

mutual

/-- The lines of a document. -/
def lines : Document → List String
  | .null => ["null"]
  | .bool b => [if b then "true" else "false"]
  | .integer n => [integerText n]
  | .number x => [floatText x]
  | .text text => textLines text
  | .sequence [] => ["[]"]
  | .sequence items => itemLines items
  | .mapping [] => ["\x7b\x7d"]
  | .mapping entries => entryLines entries

def itemLines : List Document → List String
  | [] => []
  | item :: rest => signed "- " (lines item) ++ itemLines rest

def entryLines : List (String × Document) → List String
  | [] => []
  | (key, value) :: rest =>
    let entry :=
      if isShortKey key then
        let name := "\n".intercalate (textLines key) ++ ":"
        match value with
        | .sequence (_ :: _) => name :: lines value
        | .mapping (_ :: _) => name :: indented (lines value)
        | _ => signed (name ++ " ") (lines value)
      else signed "? " (textLines key) ++ signed ": " (lines value)
    entry ++ entryLines rest

end

/-- A plain scalar is marked as the end of the document. -/
def isOpenEnded : Document → Bool
  | .text text => isPlain text.toList
  | .sequence _ | .mapping _ => false
  | _ => true

/-- A document as a text. -/
def write (document : Document) : String :=
  let body := match document with
    | .text text => signed "" (textLines text)
    | document => lines document
  "\n".intercalate body ++ (if isOpenEnded document then "\n...\n" else "\n")

end Yaml

end Vimlet
