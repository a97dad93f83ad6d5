import Vimlet.Document

/-!
# Writing JSON

A document as JSON text, on one line without blanks or indented by two spaces a level. Characters
beyond ASCII are written as they are.
-/

namespace Vimlet.Json

/-- A character as it is written in a text. -/
def escape (c : Char) : List Char :=
  if c == '"' || c == '\\' then ['\\', c]
  else if c == '\n' then ['\\', 'n']
  else if c == '\r' then ['\\', 'r']
  else if c == '\t' then ['\\', 't']
  else if c == '\x0c' then ['\\', 'f']
  else if c == '\x08' then ['\\', 'b']
  else if c.toNat < 0x20 then '\\' :: 'u' :: Text.hexDigits 4 c.toNat
  else [c]

/-- A text between quotation marks. -/
def quote (text : String) : String :=
  String.ofList ('"' :: text.toList.flatMap escape ++ ['"'])

/-- How documents are laid out. -/
inductive Layout where
  | compact
  | pretty
deriving DecidableEq, Repr

namespace Layout

/-- The line break before an item that lies `depth` levels deep. -/
def newline : Layout → Nat → String
  | compact, _ => ""
  | pretty, depth => String.ofList ('\n' :: List.replicate (2 * depth) ' ')

/-- What stands between a key and its value. -/
def colon : Layout → String
  | compact => ":"
  | pretty => ": "

/-- Items between brackets, for a container that lies `depth` levels deep. -/
def enclose (layout : Layout) (depth : Nat) (left right : String) (items : List String) : String :=
  if items.isEmpty then left ++ right
  else
    left ++ layout.newline (depth + 1) ++ ("," ++ layout.newline (depth + 1)).intercalate items ++
      layout.newline depth ++ right

end Layout

mutual

/-- The JSON text of a document that lies `depth` levels deep. -/
def writeAt (layout : Layout) (depth : Nat) : Document → String
  | .null => "null"
  | .bool b => if b then "true" else "false"
  | .integer n => integerText n
  | .number x => NumberFormat.script.text x
  | .text text => quote text
  | .sequence items => layout.enclose depth "[" "]" (writeItems layout (depth + 1) items)
  | .mapping entries =>
    layout.enclose depth "\x7b" "\x7d" (writeEntries layout (depth + 1) entries)

def writeItems (layout : Layout) (depth : Nat) : List Document → List String
  | [] => []
  | item :: rest => writeAt layout depth item :: writeItems layout depth rest

def writeEntries (layout : Layout) (depth : Nat) : List (String × Document) → List String
  | [] => []
  | (key, item) :: rest =>
    (quote key ++ layout.colon ++ writeAt layout depth item) :: writeEntries layout depth rest

end

/-- A document as a text. -/
def write (layout : Layout) (document : Document) : String := writeAt layout 0 document

end Vimlet.Json
