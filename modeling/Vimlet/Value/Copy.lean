import Vimlet.Value.Heap

/-!
# Copies

A deep copy clones every container and every function reference that can be reached from a value,
each once, so that sharing and cycles are kept. Values are copied however deep they nest: a limit on
recursion is left out.
-/

namespace Vimlet

namespace Heap

/-- The containers directly in a container. -/
def inner (heap : Heap) (handle : Handle) : List Handle :=
  (heap.contents handle).filterMap Value.handle?

/-- Adds the containers that can be reached from `handle` to those already met. -/
def reachFrom (heap : Heap) : Nat → List Handle → Handle → List Handle
  | 0, met, _ => met
  | fuel + 1, met, handle =>
    if met.contains handle then met
    else (heap.inner handle).foldl (reachFrom heap fuel) (met ++ [handle])

/-- The containers that can be reached from a value, in the order of a first visit. -/
def reach (heap : Heap) (value : Value) : List Handle :=
  match value.handle? with
  | some handle => heap.reachFrom (heap.size + 1) [] handle
  | none => []

end Heap

/-- What copies stand for what. -/
structure Clones where
  containers : List (Handle × Value)
  /-- The serial number of the clone of a function reference is greater by this. -/
  offset : Nat

/-- Replaces a container or a function reference by its clone. -/
def Value.redirect (clones : Clones) (value : Value) : Value :=
  match value with
  | .function ref => .function { ref with serial := clones.offset + ref.serial }
  | value =>
    match value.handle? with
    | some handle => (clones.containers.lookup handle).getD value
    | none => value

namespace Mem

/-- A new empty container of the same kind. -/
def newLike : Handle → Mem Value
  | .list _ => newList []
  | .object _ => newObject {}

/-- Gives a clone the contents of its model, each value replaced by its clone. -/
def fillClone (clones : Clones) : Handle × Value → Mem Unit
  | (.list source, .list cell) => do
    setList cell (((← get).list source).map (·.redirect clones))
  | (.object source, .object cell) => do
    let entries := ((← get).object source).entries
    setObject cell ⟨entries.map fun (key, value) => (key, value.redirect clones)⟩
  | _ => return

/-- Makes serial numbers for clones of references: what to add to the number of a reference for its
clone. -/
def newSerials : Mem Nat := do
  let heap ← get
  set { heap with nextSerial := 2 * heap.nextSerial }
  return heap.nextSerial

/-- A copy that shares no container and no function reference with the value. -/
def deepCopy (value : Value) : Mem Value := do
  let handles := (← get).reach value
  let containers ← handles.mapM fun handle => return (handle, ← newLike handle)
  let clones : Clones := ⟨containers, ← newSerials⟩
  containers.forM (fillClone clones)
  return value.redirect clones

end Mem

end Vimlet
