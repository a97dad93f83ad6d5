import Vimlet.Builtin.Basic
import Vimlet.Value.Container
import Vimlet.Value.Copy
import Vimlet.Value.Equality

/-!
# Functions on containers
-/

namespace Vimlet

namespace Heap

/-- The values of an Object. -/
def objectValues? (heap : Heap) : Value → Option (List Value)
  | .object cell => some (heap.object cell).values
  | _ => none

/-- The elements of Lists inside a List in their place, down to a depth or, if it is negative,
without limit. -/
def flattenWithin (heap : Heap) : Nat → Int → List Value → Option (List Value)
  | 0, _, _ => none
  | fuel + 1, depth, items =>
    List.flatten <$> items.mapM fun item =>
      match item with
      | .list cell =>
        if depth ≠ 0 then flattenWithin heap fuel (depth - 1) (heap.list cell) else some [item]
      | _ => some [item]

end Heap

namespace Mem

/-- The cell of a List. -/
def listCell : Value → Mem Nat
  | .list cell => return cell
  | value => fault (.wrongKind .list value.kind)

/-- The cell of an Object. -/
def objectCell : Value → Mem Nat
  | .object cell => return cell
  | value => fault (.wrongKind .object value.kind)

/-- The items of a List. -/
def itemsOf (value : Value) : Mem (List Value) := do return (← get).list (← listCell value)

/-- The entries of an Object. -/
def entriesOf (value : Value) : Mem (Table String Value) := do
  return (← get).object (← objectCell value)

/-- The item of a List or an Object under a key, or a default. -/
def getItem (container key default : Value) : Mem Value := do
  let heap ← get
  match container with
  | .object cell => return ((heap.object cell).get? (heap.text key)).getD default
  | .list cell =>
    let items := heap.list cell
    match position? items.length (← ofExcept key.toInt) with
    | some position => return items.getD position default
    | none => return default
  | _ => return default

/-- Removes an element of a List, or those from one index to another, or an entry of an Object. -/
def removeItem (container key last : Value) : Mem Value := do
  match container with
  | .object cell =>
    let heap ← get
    let name := heap.text key
    match (heap.object cell).get? name with
    | some value =>
      setObject cell ((heap.object cell).erase name)
      return value
    | none => fault (.expected (.key name))
  | _ =>
    let cell ← listCell container
    let items := (← get).list cell
    let index ← ofExcept key.toInt
    match position? items.length index with
    | none => fault (.expected (.indexInRange index))
    | some first =>
      match last with
      | .nil =>
        setList cell (items.eraseIdx first)
        return items.getD first .nil
      | last =>
        let last := ((← ofExcept last.toInt).emod items.length).toNat
        let removed := (items.take (last + 1)).drop first
        let kept := if first ≤ last then items.take first ++ items.drop (last + 1) else items
        let result ← newList removed
        setList cell kept
        return result

/-- A shallow copy of a value. -/
def copyOf (value : Value) : Mem Value := do
  match value with
  | .list cell => newList ((← get).list cell)
  | .object cell => newObject ((← get).object cell)
  | value => return value

/-- Drops elements that equal the one kept before them; `kept` holds the elements kept, backwards.
-/
def uniqueFrom (kept : List Value) : List Value → Mem (List Value)
  | [] => return kept.reverse
  | item :: rest => do
    match kept with
    | last :: _ =>
      if ← equal last item then uniqueFrom kept rest else uniqueFrom (item :: kept) rest
    | [] => uniqueFrom [item] rest

/-- No progression is longer. -/
def maxRange : Int := 2147483648

/-- An arithmetic progression. -/
def progression (start step : Int) : Nat → List Value
  | 0 => []
  | count + 1 => .integer start :: progression (start + step) step count

/-- The integers from `start` up to but without `stop` in steps of `step`. -/
def rangeList (start stop step : Int) : Mem Value := do
  let count :=
    if 0 < step then (stop - start + step - 1) / step else (start - stop - step - 1) / (-step)
  if maxRange < count then throw .internal
  else newList (progression start step count.toNat)

/-- The position of the first element that equals a value, counted from `position`, or -1. -/
def searchFrom (value : Value) (position : Int) : List Value → Mem Int
  | [] => return -1
  | item :: rest => do
    if ← equal item value then return position else searchFrom value (position + 1) rest

/-- The first position from `start` on at which a List holds a value, or -1. Negative positions
count from the end. -/
def search (items : List Value) (value : Value) (start : Int) : Mem Int :=
  if start < -items.length then throw .internal
  else if start < 0 then searchFrom value start (items.drop (items.length + start).toNat ++ items)
  else searchFrom value start (items.drop start.toNat)

/-- Counts the items that are equal to a value. -/
def countEqual (value : Value) : List Value → Mem Nat
  | [] => return 0
  | item :: rest => do
    let found ← equal item value
    let more ← countEqual value rest
    return if found then more + 1 else more

/-- The greatest or the least of the integers that values stand for, zero if there are none. -/
def extremum (better : Int → Int → Bool) (container : Value) : Mem Value := do
  let values ← match (← get).objectValues? container with
    | some values => pure values
    | none => itemsOf container
  match ← ofExcept (values.mapM Value.toInt) with
  | [] => return .integer 0
  | first :: rest =>
    return .integer (rest.foldl (fun best n => if better n best then n else best) first)

/-- Flattens a List into a new one. -/
def flattenList (items : Value) (depth : Value) : Mem Value := do
  let limit ← match depth with
    | .nil => pure (-1)
    | depth => ofExcept depth.toInt
  let items ← itemsOf items
  let heap ← get
  match heap.flattenWithin (heap.size + nestingLimit) limit items with
  | some items => newList items
  | none => throw .tooDeep

end Mem

/-- Applies a function on containers. -/
def ContainerFunction.apply (f : ContainerFunction) (args : List Value) : Mem Value := do
  match f, args with
  | .len, [a] => return .integer (← Mem.ofExcept ((← Mem.heap).length a))
  | .empty, [a] => return .bool (!(← Mem.heap).truthOf (fun _ => true) a)
  | .get, container :: key :: default => Mem.getItem container key (default.headD .nil)
  | .insert, target :: item :: place => Mem.insert target item (place.headD .nil)
  | .add, [target, item] => Mem.append target item
  | .extend, target :: other :: place => Mem.extend target other (place.headD .nil)
  | .remove, container :: key :: last => Mem.removeItem container key (last.headD .nil)
  | .copy, [a] => Mem.copyOf a
  | .deepcopy, [a] => Mem.deepCopy a
  | .reverse, [a] =>
    let cell ← Mem.listCell a
    Mem.setList cell ((← Mem.heap).list cell).reverse
    return a
  | .uniq, [a] =>
    let cell ← Mem.listCell a
    Mem.setList cell (← Mem.uniqueFrom [] ((← Mem.heap).list cell))
    return a
  | .range, [stop] => do Mem.rangeList 0 (← Mem.ofExcept stop.toInt) 1
  | .range, start :: stop :: step =>
    let step ← Mem.ofExcept (step.headD (.integer 1)).toInt
    if step == 0 then Mem.fault (.expected .stride)
    else match stop with
      | .nil => Mem.rangeList 0 (← Mem.ofExcept start.toInt) 1
      | stop =>
        let stop ← Mem.ofExcept stop.toInt
        let start ← Mem.ofExcept start.toInt
        Mem.rangeList start (if 0 < step then stop + 1 else stop - 1) step
  | .index, list :: value :: start =>
    let elements ← Mem.itemsOf list
    let start ← Mem.ofExcept (start.headD .nil).toInt
    return .integer (← Mem.search elements value start)
  | .count, [container, value] =>
    let elements ← match (← Mem.heap).objectValues? container with
      | some elements => pure elements
      | none => Mem.elements container
    return .integer (← Mem.countEqual value elements)
  | .max, [a] => Mem.extremum (fun n best => best < n) a
  | .min, [a] => Mem.extremum (fun n best => n < best) a
  | .flatten, list :: depth => Mem.flattenList list (depth.headD .nil)
  | .hasKey, [object, key] =>
    let entries ← Mem.entriesOf object
    return .bool (entries.contains (← Mem.text key))
  | .keys, [object] => do Mem.newList ((← Mem.entriesOf object).keys.map .str)
  | .values, [object] => do Mem.newList (← Mem.entriesOf object).values
  | .items, [object] => do Mem.newList (← Mem.newPairs (← Mem.entriesOf object).entries)
  | .type, [a] => return .integer a.kind.code
  | .garbagecollect, _ => return .integer 0
  | _, _ => throw .internal

end Vimlet
