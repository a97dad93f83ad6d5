import Vimlet.Fault

/-!
# Places in a YAML text

A cursor is what remains of a text and where that is: columns decide how blocks nest.
-/

namespace Vimlet

namespace Yaml

/-- The text is refused. -/
def refusal : Stop := .fault (.expected .yaml)

def isBreak (c : Char) : Bool :=
  c == '\n' || c == '\r' || c == '\x85' || c == '\u2028' || c == '\u2029'

/-- A blank or the end of a line follows, or nothing. -/
def atBlank : List Char → Bool
  | [] => true
  | c :: _ => c == ' ' || c == '\t' || isBreak c

/-- The line ends here. -/
def atLineEnd : List Char → Bool
  | [] => true
  | c :: _ => isBreak c

/-- A document starts or ends here. -/
def atMarker : List Char → Bool
  | '-' :: '-' :: '-' :: rest => atBlank rest
  | '.' :: '.' :: '.' :: rest => atBlank rest
  | _ => false

/-- The characters that a text may have. -/
def isAllowed (c : Char) : Bool :=
  c == '\t' || c == '\n' || c == '\r' || c == '\x85' || (' ' ≤ c && c ≤ '~') ||
    ('\xa0' ≤ c && c ≤ '\ufffd') || 0x10000 ≤ c.toNat

/-- A place in a text. -/
structure Cursor where
  rest : List Char
  index : Nat := 0
  line : Nat := 0
  column : Nat := 0

namespace Cursor

def peek? (cursor : Cursor) : Option Char := cursor.rest.head?

/-- The next character is the given one. -/
def sees (cursor : Cursor) (c : Char) : Bool := cursor.peek? == some c

def skip (cursor : Cursor) : Cursor :=
  match cursor.rest with
  | [] => cursor
  | c :: rest =>
    let index := cursor.index + 1
    if isBreak c && !(c == '\r' && rest.head? == some '\n') then ⟨rest, index, cursor.line + 1, 0⟩
    else ⟨rest, index, cursor.line, if c == '\ufeff' then cursor.column else cursor.column + 1⟩

def advance (cursor : Cursor) : Nat → Cursor
  | 0 => cursor
  | count + 1 => cursor.skip.advance count

/-- The place at which the given rest of the text starts. -/
def moveTo (cursor : Cursor) (rest : List Char) : Cursor :=
  cursor.advance (cursor.rest.length - rest.length)

def skipWhile (cursor : Cursor) (property : Char → Bool) : Cursor :=
  cursor.advance (cursor.rest.takeWhile property).length

/-- The place after the next spaces, up to a column. -/
def skipIndent (cursor : Cursor) (column : Nat) : Cursor :=
  cursor.advance
    (min (column - cursor.column) (cursor.rest.takeWhile (· == ' ')).length)

/-- The end of a line, as the character it stands for, and the place after it. -/
def lineBreak? (cursor : Cursor) : Option (Char × Cursor) :=
  match cursor.rest with
  | '\r' :: '\n' :: _ => some ('\n', cursor.skip.skip)
  | c :: _ =>
    if c == '\u2028' || c == '\u2029' then some (c, cursor.skip)
    else if isBreak c then some ('\n', cursor.skip)
    else none
  | [] => none

end Cursor

end Yaml

end Vimlet
