import Vimlet.Builtin.Container
import Vimlet.Builtin.Math
import Vimlet.Builtin.Text
import Vimlet.Sorting.Basic
import Vimlet.Statement.Simple

/-!
# Functions that evaluate and call

Functions that need the session: evaluation of text, calls of functions, callbacks over containers
and assertions. `Builtin.apply` applies any builtin function.
-/

namespace Vimlet

variable {σ : Type}

/-- Calls a function that is given by a reference or by its name. -/
def callValue (engine : Engine σ) (function : Value) (args : List Value) : Run σ Value := do
  match function with
  | .function ref => engine.callRef ref args
  | function => engine.call ((← get).heap.text function) args

/-- The texts of values, one after the other. -/
def Heap.concatTexts (heap : Heap) (values : List Value) : String :=
  "".intercalate (values.map heap.text)

/-! ### Callbacks -/

/-- Binds the builtin variables that a callback expression reads. -/
def Session.setCallback (key value : Value) (session : Session σ) : Session σ :=
  { session with
    vars := (session.vars.insertBuiltin "key" key).insertBuiltin "val" value }

/-- Runs a callback: a reference is called with a key and a value, an expression finds both in
builtin variables. -/
def runCallback (engine : Engine σ) (callback key value : Value) : Run σ Value := do
  match callback with
  | .function ref => engine.callRef ref [key, value]
  | callback =>
    let builtins := (← get).vars.builtins
    let savedKey := (builtins.get? "key").getD .nil
    let savedValue := (builtins.get? "val").getD .nil
    modify (·.setCallback key value)
    Run.ensure (·.setCallback savedKey savedValue) do
      engine.eval ((← get).heap.text callback)

/-- The truth of what a callback gives. -/
def testCallback (engine : Engine σ) (callback key value : Value) : Run σ Bool := do
  let answer ← runCallback engine callback key value
  return (← get).truth answer

/-- Removes the entries of an Object for which a callback is false. An entry that the callback has
removed itself stops. -/
def filterEntries (engine : Engine σ) (callback : Value) (cell : Nat) :
    List (String × Value) → Run σ Unit
  | [] => return
  | (key, value) :: rest => do
    if !(← testCallback engine callback (.str key) value) then
      let entries := (← get).heap.object cell
      if entries.contains key then Run.onHeap (Mem.setObject cell (entries.erase key))
      else throw .internal
    filterEntries engine callback cell rest

/-- The elements for which a callback is true, from an index on. -/
def filterItems (engine : Engine σ) (callback : Value) (index : Nat) :
    List Value → Run σ (List Value)
  | [] => return []
  | item :: rest => do
    let kept ← testCallback engine callback (.integer index) item
    let more ← filterItems engine callback (index + 1) rest
    return if kept then item :: more else more

/-- Keeps what a callback is true of. -/
def filterContainer (engine : Engine σ) (container callback : Value) : Run σ Value := do
  match container with
  | .object cell =>
    filterEntries engine callback cell ((← get).heap.object cell).entries
    return container
  | _ =>
    let cell ← Run.onHeap (Mem.listCell container)
    let kept ← filterItems engine callback 0 ((← get).heap.list cell)
    Run.onHeap (Mem.setList cell kept)
    return container

/-- Replaces the values of an Object by what a callback gives. -/
def mapEntries (engine : Engine σ) (callback : Value) (cell : Nat) :
    List (String × Value) → Run σ Unit
  | [] => return
  | (key, value) :: rest => do
    let result ← runCallback engine callback (.str key) value
    Run.onHeap (do Mem.setObject cell (((← get).object cell).insert key result))
    mapEntries engine callback cell rest

/-- Replaces the elements of a List by the results of a callback, from an index on. An index that
the callback has cut off stops. -/
def mapItems (engine : Engine σ) (callback : Value) (cell index : Nat) : List Value → Run σ Unit
  | [] => return
  | item :: rest => do
    let result ← runCallback engine callback (.integer index) item
    if index < (← get).heap.listLength cell then
      Run.onHeap (modify (·.setItem cell index result))
    else throw .internal
    mapItems engine callback cell (index + 1) rest

/-- Replaces the contents of a container by what a callback gives. -/
def mapContainer (engine : Engine σ) (container callback : Value) : Run σ Value := do
  match container with
  | .object cell =>
    mapEntries engine callback cell ((← get).heap.object cell).entries
    return container
  | _ =>
    let cell ← Run.onHeap (Mem.listCell container)
    mapItems engine callback cell 0 ((← get).heap.list cell)
    return container

/-! ### Sorting -/

/-- Numbers come before strings, and strings before all other values. -/
def Value.sortRank : Value → Nat
  | .integer _ | .number _ => 0
  | .str _ => 1
  | _ => 2

/-- The order of values without a comparator: numbers by size, strings by their characters, and no
order between other values. -/
def Value.sortsBefore (a b : Value) : Bool :=
  match a.sortRank, b.sortRank with
  | 0, 0 =>
    match a.toNumber, b.toNumber with
    | .ok x, .ok y => x < y
    | _, _ => false
  | 1, 1 => a.less b
  | 2, 2 => false
  | rank, other => rank < other

/-- The comparison that a comparator function makes: its first argument comes first if the result is
negative. -/
def comparesLess (engine : Engine σ) (comparator a b : Value) : Run σ Bool := do
  let result ← Run.ofExcept (← callValue engine comparator [a, b]).toInt
  return result < 0

/-- The order that the second argument of `sort` selects. -/
def sortOrder (engine : Engine σ) (comparator : Value) (a b : Value) : Run σ Bool :=
  match comparator with
  | .nil | .str "" => return a.sortsBefore b
  | comparator => comparesLess engine comparator a b

/-- Sorts the elements of a List by an order. A comparison that stops leaves them in the List as
they are arranged then. -/
def sortElements (order : Value → Value → Run σ Bool) (cell : Nat) (elements : List Value) :
    Run σ (List Value) := do
  match ← (Sorting.sort (fun a b => ExceptT.mk (Run.attempt (order a b))) elements).run with
  | .ok sorted => return sorted
  | .error stopped =>
    Run.onHeap (Mem.setList cell stopped.items)
    throw stopped.stop

/-- Sorts a List in place. It is empty meanwhile, and a comparator that adds to it stops the sort in
the end. -/
def sortList (engine : Engine σ) (items comparator : Value) : Run σ Value := do
  let cell ← Run.onHeap (Mem.listCell items)
  let elements := (← get).heap.list cell
  let additions := ((← get).heap.listCell cell).additions
  Run.onHeap (Mem.setList cell [])
  let sorted ← sortElements (sortOrder engine comparator) cell elements
  let touched := ((← get).heap.listCell cell).additions != additions
  Run.onHeap (Mem.setList cell sorted)
  if touched then throw .internal else return items

/-! ### Assertions -/

/-- Adds a message to the List of failed assertions. -/
def addError (message : String) : Run σ Unit := do
  match (← get).vars.builtins.get? "errors" with
  | some (.list cell) =>
    Run.onHeap (modify (·.pushItem cell (.str message)))
  | _ => throw .internal

/-- Reports an assertion: zero if it holds; else its message, or a default one, becomes an error. -/
def report (holds : Bool) (message : Value) (default : String) : Run σ Value := do
  if holds then return .integer 0
  else
    match message with
    | .nil => addError default
    | message => addError ((← get).heap.text message)
    return .integer 1

/-- The values that `assert_true` lets pass. -/
def Value.assertsTrue : Value → Bool
  | .bool b => b
  | .integer n => n != 0
  | _ => false

/-- The values that `assert_false` lets pass. -/
def Value.assertsFalse : Value → Bool
  | .bool b => !b
  | .integer n => n == 0
  | _ => false

/-! ### Application -/

/-- The function reference that a value names, which must exist. -/
def makeRef (value : Value) : Run σ Value := do
  match value with
  | .function _ => return value
  | value =>
    let session ← get
    let name := session.heap.text value
    let script :=
      if "s:".toList.isPrefixOf name.toList then session.functions.scripts.active else none
    if session.functionExists { name, script } then Run.onHeap (Mem.newRef name script)
    else Run.fault (.functionUndefined name)

/-- A variable, or with a star before its name a function, exists. -/
def nameExists (text : String) : Run σ Bool := do
  let session ← get
  match text.toList with
  | '*' :: name => return session.functionExists { name := String.ofList name, script := none }
  | _ =>
    match session.vars.find? text with
    | .ok found => return found.isSome
    | .error _ => return false

/-- Applies a function that evaluates, calls or asserts. -/
def ControlFunction.apply (engine : Engine σ) (f : ControlFunction) (args : List Value) :
    Run σ Value := do
  match f, args with
  | .eval, parts => Run.enclosed (engine.eval ((← get).heap.concatTexts parts))
  | .exec, [text] =>
    executeText engine text
    return .nil
  | .exec, parts =>
    executeText engine (.str ((← get).heap.concatTexts parts))
    return .nil
  | .call, [callee, arguments] =>
    let arguments ← Run.onHeap (Mem.itemsOf arguments)
    callValue engine callee arguments
  | .function, [name] => makeRef name
  | .exists_, [name] => return .bool (← nameExists ((← get).heap.text name))
  | .filter, [container, callback] => filterContainer engine container callback
  | .map, [container, callback] => mapContainer engine container callback
  | .sort, items :: comparator => sortList engine items (comparator.headD .nil)
  | .assertEqual, expected :: actual :: message =>
    let equal ← Run.onHeap (Mem.equal expected actual)
    let heap := (← get).heap
    report equal (message.headD .nil)
      ("Expected " ++ heap.display expected ++ " but got " ++ heap.display actual)
  | .assertNotEqual, expected :: actual :: message =>
    let equal ← Run.onHeap (Mem.equal expected actual)
    report (!equal) (message.headD .nil)
      ("Expected not equal to " ++ (← get).heap.display expected)
  | .assertTrue, actual :: message =>
    report actual.assertsTrue (message.headD .nil)
      ("Expected True but got " ++ (← get).heap.display actual)
  | .assertFalse, actual :: message =>
    report actual.assertsFalse (message.headD .nil)
      ("Expected False but got " ++ (← get).heap.display actual)
  | _, _ => throw .internal

/-- Applies a builtin function. -/
def Builtin.apply (engine : Engine σ) (f : Builtin) (args : List Value) : Run σ Value :=
  match f with
  | .math f => Run.ofExcept (f.apply args)
  | .text f => Run.onHeap (f.apply args)
  | .container f => Run.onHeap (f.apply args)
  | .control f => f.apply engine args

end Vimlet
