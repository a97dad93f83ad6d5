import Vimlet.Number.Reading
import Vimlet.Value.Heap

/-!
# Patterns

A pattern takes values apart: it is a name, a List of patterns in brackets, or an Object pattern,
which is a list of names in braces.
-/

namespace Vimlet

/-- What a loop or a `let` binds. -/
inductive Pattern where
  | name (word : String)
  | list (items : List Pattern)
  | object (names : List String)
deriving Repr

namespace Pattern

/-- The characters that names start with. -/
def startsName (c : Char) : Bool := c.isAlpha || c == '_'

def continuesName (c : Char) : Bool := Text.isWord c || c == ':' || c == '#'

/-- The name at the start of a text, and the rest. -/
def splitName? : List Char → Option (String × List Char)
  | [] => none
  | c :: rest =>
    if startsName c then
      some (String.ofList (c :: rest.takeWhile continuesName), rest.dropWhile continuesName)
    else none

/-- The text is a name. -/
def isName (text : List Char) : Bool :=
  match splitName? text with
  | some (_, []) => true
  | _ => false

/-- Adds what follows an item: a comma and more items, or the closing bracket. -/
def closeOrContinue (close : Char) (text : List Char)
    (more : List Char → Except Fault (List Pattern × List Char)) (item : Pattern) :
    Except Fault (List Pattern × List Char) :=
  match Text.trimStart text with
  | c :: rest =>
    if c == ',' then do
      let (items, rest) ← more rest
      return (item :: items, rest)
    else if c == close then .ok ([item], rest)
    else .error (.expected (.closing close))
  | [] => .error (.expected (.closing close))

/-- The name that a pattern is, as the items of an Object pattern must be. -/
def asName : Pattern → Except Fault String
  | .name word => .ok word
  | _ => .error (.expected .nameInObjectPattern)

mutual

/-- Reads a pattern and returns the text after it; `fuel` bounds the number of tokens. -/
def readWithin : Nat → List Char → Except Fault (Pattern × List Char)
  | 0, _ => .error (.expected .variableName)
  | fuel + 1, text =>
    match Text.trimStart text with
    | '[' :: rest => do
      let (items, rest) ← readItems fuel ']' false rest
      return (list items, rest)
    | '\x7b' :: rest => do
      let (items, rest) ← readItems fuel '\x7d' true rest
      return (object (items.filterMap fun item => item.asName.toOption), rest)
    | text =>
      match splitName? text with
      | some (word, rest) => .ok (name word, rest)
      | none => .error (.expected .variableName)

/-- Reads the items of a sequence that may be empty. -/
def readItems : Nat → Char → Bool → List Char → Except Fault (List Pattern × List Char)
  | 0, _, _, _ => .error (.expected .variableName)
  | fuel + 1, close, namesOnly, text =>
    match Text.trimStart text with
    | c :: rest =>
      if c == close then .ok ([], rest) else readMore fuel close namesOnly (c :: rest)
    | [] => readMore fuel close namesOnly []

/-- Reads the items of a sequence that is not empty. -/
def readMore : Nat → Char → Bool → List Char → Except Fault (List Pattern × List Char)
  | 0, _, _, _ => .error (.expected .variableName)
  | fuel + 1, close, namesOnly, text => do
    let (item, rest) ← readWithin fuel text
    if namesOnly then discard item.asName
    closeOrContinue close rest (readMore fuel close namesOnly) item

end

/-- The pattern that a text stands for. -/
def parse (text : String) : Except Fault Pattern := do
  let (pattern, rest) ← readWithin (3 * text.length + 3) text.toList
  let rest := Text.trim rest
  if rest.isEmpty then return pattern
  else throw (.expected (.endOfPattern (String.ofList rest)))

/-- The part of a name after its last colon. -/
def bareName (name : String) : String :=
  String.ofList (name.toList.reverse.takeWhile (· != ':')).reverse

mutual

/-- The bindings of a pattern for a value, from left to right, and the fault that ends them if the
value does not fit. -/
def bindings (heap : Heap) : Pattern → Value → List (String × Value) × Option Fault
  | .name word, value => ([(word, value)], none)
  | list items, value =>
    match value with
    | .list cell =>
      let values := heap.list cell
      if values.length == items.length then bindItems heap items values
      else ([], some (.expected (.values items.length values.length)))
    | _ => ([], some (.wrongKind .list value.kind))
  | object names, value =>
    match value with
    | .object cell =>
      let entries := heap.object cell
      (names.map fun word => (word, (entries.get? (bareName word)).getD .nil), none)
    | _ => ([], some (.wrongKind .object value.kind))

/-- The bindings that patterns make for as many values. -/
def bindItems (heap : Heap) : List Pattern → List Value → List (String × Value) × Option Fault
  | item :: items, value :: values =>
    match bindings heap item value with
    | (bound, none) =>
      let (more, fault) := bindItems heap items values
      (bound ++ more, fault)
    | stopped => stopped
  | _, _ => ([], none)

end

end Pattern

end Vimlet
