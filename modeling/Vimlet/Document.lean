import Vimlet.Value.Heap

/-!
# Documents

Plain data without sharing, the form in which values are written to and read from other formats.
-/

namespace Vimlet

/-- Data that is read and written, without sharing. -/
inductive Document where
  | null
  | bool (b : Bool)
  | integer (n : Int)
  | number (x : Float)
  | text (text : String)
  | sequence (items : List Document)
  | mapping (entries : List (String × Document))
deriving Repr

instance : Inhabited Document := ⟨.null⟩

/-- A number as it is written to a document: one that is not finite becomes its text. -/
def Document.ofFloat (x : Float) : Document :=
  if x.isFinite then .number x else .text (NumberFormat.script.text x)

namespace Heap

/-- The data of a value. `path` holds the containers around it, and `fuel` bounds how many more can
be entered. -/
def documentFrom (heap : Heap) : Nat → List Handle → Value → Except Fault Document
  | _, _, .nil => .ok .null
  | _, _, .bool b => .ok (.bool b)
  | _, _, .integer n => .ok (.integer n)
  | _, _, .number x => .ok (.ofFloat x)
  | _, _, .str text => .ok (.text text)
  | _, _, .function ref => .ok (.text ref.name)
  | 0, _, .list _ => .error (.cyclicReference .list)
  | 0, _, .object _ => .error (.cyclicReference .object)
  | fuel + 1, path, .list cell =>
    if path.contains (.list cell) then .error (.cyclicReference .list)
    else .sequence <$> (heap.list cell).mapM (documentFrom heap fuel (.list cell :: path))
  | fuel + 1, path, .object cell =>
    if path.contains (.object cell) then .error (.cyclicReference .object)
    else .mapping <$> (heap.object cell).entries.mapM fun (key, value) => do
      return (key, ← documentFrom heap fuel (.object cell :: path) value)

/-- The data of a value. A container inside itself has none. -/
def document (heap : Heap) (value : Value) : Except Fault Document :=
  heap.documentFrom (heap.size + 1) [] value

end Heap

mutual

/-- The value of data, in new containers. -/
def Mem.ofDocument : Document → Mem Value
  | .null => return .nil
  | .bool b => return .bool b
  | .integer n => return .integer n
  | .number x => return .number x
  | .text text => return .str text
  | .sequence items => do Mem.newList (← Mem.ofItems items)
  | .mapping entries => do Mem.newObject (.ofList (← Mem.ofEntries entries))

/-- The values of documents in a row. -/
def Mem.ofItems : List Document → Mem (List Value)
  | [] => return []
  | item :: rest => do
    let value ← Mem.ofDocument item
    return value :: (← Mem.ofItems rest)

/-- The values of the documents in a mapping. -/
def Mem.ofEntries : List (String × Document) → Mem (List (String × Value))
  | [] => return []
  | (key, item) :: rest => do
    let value ← Mem.ofDocument item
    return (key, value) :: (← Mem.ofEntries rest)

end

end Vimlet
