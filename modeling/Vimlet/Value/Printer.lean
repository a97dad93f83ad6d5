import Vimlet.Value.Heap

/-!
# The text of values

A printer writes a value as a literal: strings in single quotes with embedded quotes doubled,
containers with their contents, and `[...]` or its Object counterpart for a container inside itself.
`Heap.display` is the text that a new printer gives. `Heap.text` is the same except that a string
stands for itself and Nil is empty. Values are printed however deep they nest: a limit on recursion
is left out.
-/

namespace Vimlet

/-- A text between quotation marks, with those in it doubled. -/
def quoteLiteral (text : String) : String :=
  let double (c : Char) : List Char := if c == '\'' then ['\'', '\''] else [c]
  String.ofList ('\'' :: text.toList.flatMap double ++ ['\''])

/-- A Bool as it is written. -/
def boolText (b : Bool) : String := if b then "v:true" else "v:false"

/-- The containers that are being printed. -/
structure Printer where
  active : List Handle := []
deriving DecidableEq, Repr

namespace Printer

/-- Prints a container, which is active meanwhile. An active one gives only a mark. -/
def enter (handle : Handle) (mark : String) (contents : StateM Printer String) :
    StateM Printer String := do
  if (← get).active.contains handle then return mark
  modify fun printer => { printer with active := handle :: printer.active }
  let text ← contents
  modify fun printer => { printer with active := printer.active.erase handle }
  return text

/-- Prints the literal of a value. `fuel` bounds how many more containers can become active. -/
def formatWithin (heap : Heap) : Nat → Value → StateM Printer String
  | _, .nil => return "v:null"
  | _, .bool b => return boolText b
  | _, .integer n => return integerText n
  | _, .number x => return NumberFormat.script.text x
  | _, .str text => return quoteLiteral text
  | _, .function ref => return "function('" ++ ref.name ++ "')"
  | 0, .list _ => return "[...]"
  | 0, .object _ => return "\x7b...\x7d"
  | fuel + 1, .list cell => enter (.list cell) "[...]" do
      let items ← (heap.list cell).mapM (formatWithin heap fuel)
      return "[" ++ ", ".intercalate items ++ "]"
  | fuel + 1, .object cell => enter (.object cell) "\x7b...\x7d" do
      let entries ← (heap.object cell).entries.mapM fun (key, value) =>
        return quoteLiteral key ++ ": " ++ (← formatWithin heap fuel value)
      return "\x7b" ++ ", ".intercalate entries ++ "\x7d"

/-- The literal of a value, and the printer after it. No more containers than there are can become
active. -/
def format (printer : Printer) (heap : Heap) (value : Value) : String × Printer :=
  formatWithin heap (heap.size + 1) value printer

end Printer

namespace Heap

/-- A value as it is printed. -/
def display (heap : Heap) (value : Value) : String := (Printer.format {} heap value).1

/-- The text of a value where a string is wanted. -/
def text (heap : Heap) : Value → String
  | .str text => text
  | .nil => ""
  | value => heap.display value

end Heap

/-- The text of a value. -/
def Mem.text (value : Value) : Mem String := return (← get).text value

def Mem.display (value : Value) : Mem String := return (← get).display value

end Vimlet
