import Vimlet.Fault

/-!
# The heap

The cells of Lists and Objects. A handle is the number of a cell; cells are never freed, so a handle
that was valid stays valid.
-/

namespace Vimlet

/-- What a List holds, and how many items were added to it. -/
structure ListCell where
  items : Array Value := #[]
  additions : Nat := 0
deriving Repr

/-- The containers of a session. -/
structure Heap where
  lists : Array ListCell := #[]
  objects : Array (Table String Value) := #[]
  /-- A serial number that no function reference has, nor any greater one. -/
  nextSerial : Nat := 0
deriving Repr

instance : Inhabited Heap := ⟨{}⟩

/-- A container: the handle of a List or of an Object. -/
inductive Handle where
  | list (cell : Nat)
  | object (cell : Nat)
deriving DecidableEq, Repr

/-- The container that a value is. -/
def Value.handle? : Value → Option Handle
  | .list cell => some (.list cell)
  | .object cell => some (.object cell)
  | _ => none

namespace Heap

/-- The contents of the cell of a List. -/
def listCell (heap : Heap) (cell : Nat) : ListCell := heap.lists[cell]?.getD {}

/-- The items of a List. -/
def list (heap : Heap) (cell : Nat) : List Value := (heap.listCell cell).items.toList

/-- The number of items of a List. -/
def listLength (heap : Heap) (cell : Nat) : Nat := (heap.listCell cell).items.size

/-- The element of a List at a position; Nil if there is none. -/
def item (heap : Heap) (cell position : Nat) : Value :=
  (heap.listCell cell).items.getD position .nil

/-- The entries of an Object. -/
def object (heap : Heap) (cell : Nat) : Table String Value := heap.objects[cell]?.getD {}

def setList (heap : Heap) (cell : Nat) (items : List Value) : Heap :=
  { heap with
    lists := heap.lists.modify cell fun contents => { contents with items := items.toArray } }

/-- Replaces an item of a List. -/
def setItem (heap : Heap) (cell position : Nat) (item : Value) : Heap :=
  { heap with
    lists := heap.lists.modify cell fun ⟨items, additions⟩ =>
      ⟨items.setIfInBounds position item, additions⟩ }

/-- Replaces the elements of a List by more elements. -/
def growList (heap : Heap) (cell : Nat) (items : List Value) : Heap :=
  { heap with
    lists := heap.lists.modify cell fun contents => ⟨items.toArray, contents.additions + 1⟩ }

/-- Adds an item to a List. -/
def pushItem (heap : Heap) (cell : Nat) (item : Value) : Heap :=
  { heap with
    lists := heap.lists.modify cell fun ⟨items, additions⟩ => ⟨items.push item, additions + 1⟩ }

def setObject (heap : Heap) (cell : Nat) (entries : Table String Value) : Heap :=
  { heap with objects := heap.objects.setIfInBounds cell entries }

/-- The number of containers. -/
def size (heap : Heap) : Nat := heap.lists.size + heap.objects.size

/-- The values in a container. -/
def contents (heap : Heap) : Handle → List Value
  | .list cell => heap.list cell
  | .object cell => (heap.object cell).values

end Heap

/-- A computation on the heap that may stop; what it wrote before it stopped stays. -/
abbrev Mem := EStateM Stop Heap

namespace Mem

/-- Stops with a fault. -/
def fault {α : Type} (cause : Fault) : Mem α := throw (.fault cause)

def heap : Mem Heap := get

/-- Stops with a fault, if there is one. -/
def ofExcept {α : Type} : Except Fault α → Mem α
  | .ok value => pure value
  | .error cause => fault cause

/-- Makes a List. -/
def newList (items : List Value) : Mem Value := do
  let heap ← get
  set { heap with lists := heap.lists.push { items := items.toArray } }
  return .list heap.lists.size

/-- Makes an Object. -/
def newObject (entries : Table String Value) : Mem Value := do
  let heap ← get
  set { heap with objects := heap.objects.push entries }
  return .object heap.objects.size

/-- Makes a new reference to a function. -/
def newRef (name : String) (script : Option ScopeId) : Mem Value := do
  let heap ← get
  set { heap with nextSerial := heap.nextSerial + 1 }
  return .function ⟨name, script, heap.nextSerial⟩

def setList (cell : Nat) (items : List Value) : Mem Unit := modify (·.setList cell items)

def growList (cell : Nat) (items : List Value) : Mem Unit := modify (·.growList cell items)

def setObject (cell : Nat) (entries : Table String Value) : Mem Unit :=
  modify (·.setObject cell entries)

end Mem

end Vimlet
