import Vimlet.Value.Coerce

/-!
# Containers

Indexing, slicing and iteration, and the operations that change a List or an Object in place. A
container is never stored directly into itself.
-/

namespace Vimlet

/-- The position that an index denotes in a sequence; a negative one counts from the end. -/
def position? (size : Nat) (index : Int) : Option Nat :=
  if 0 ≤ index && index < size then some index.toNat
  else if index < 0 && -(size : Int) ≤ index then some (size + index).toNat
  else none

/-- The position at which an index cuts a sequence, with indices out of range moved to the ends. -/
def cutPosition (size : Nat) (index : Int) : Nat :=
  if index < 0 then (size + index).toNat else min index.toNat size

/-- The elements at positions `first` to `last`, both included and counted from the end if negative;
absent bounds are the ends. -/
def sliceItems {α : Type} (items : List α) (first last : Option Int) : List α :=
  let size : Int := items.length
  let start := first.getD 0
  let start := if start < 0 then max (size + start) 0 else start
  let stop := last.getD (size - 1)
  let stop := if stop < 0 then stop + size else stop
  if stop < start then []
  else (items.take (min (stop + 1) size).toNat).drop (min start size).toNat

/-- A character as a value. -/
def charValue (c : Char) : Value := .str c.toString

namespace Mem

/-- The part of a value under a key: anything missing is Nil. -/
def index (base key : Value) : Mem Value := do
  let heap ← get
  match base with
  | .list cell =>
    if key.isNumeric then
      match position? (heap.listLength cell) (← ofExcept key.toInt) with
      | some position => return heap.item cell position
      | none => return .nil
    else return .nil
  | .str text =>
    if key.isNumeric then
      let chars := text.toList
      match position? chars.length (← ofExcept key.toInt) with
      | some position => return (chars[position]?.map charValue).getD .nil
      | none => return .nil
    else return .nil
  | .object cell => return ((heap.object cell).get? (heap.text key)).getD .nil
  | _ => return .nil

/-- An optional bound of a slice: Nil stands for an absent one. -/
def bound (value : Value) : Mem (Option Int) :=
  match value with
  | .nil => return none
  | value => some <$> ofExcept value.toInt

/-- The part of a List or a string between two positions, both included. -/
def slice (base first last : Value) : Mem Value := do
  match base with
  | .list cell =>
    let first ← bound first
    let last ← bound last
    newList (sliceItems ((← get).list cell) first last)
  | .str text =>
    let first ← bound first
    let last ← bound last
    return .str (String.ofList (sliceItems text.toList first last))
  | _ => return .nil

/-- A new pair of a key and a value for each entry. -/
def newPairs : List (String × Value) → Mem (List Value)
  | [] => return []
  | (key, value) :: rest => do
    let pair ← newList [.str key, value]
    return pair :: (← newPairs rest)

/-- What a loop over a value runs through: elements, pairs of key and value, or characters. -/
def elements (value : Value) : Mem (List Value) := do
  let heap ← get
  match value with
  | .list cell => return heap.list cell
  | .object cell => newPairs (heap.object cell).entries
  | .str text => return text.toList.map charValue
  | _ => return []

/-- Inserts an item into a List before an index. -/
def insert (target item index : Value) : Mem Value := do
  match target with
  | .list cell =>
    if item.same target then fault (.cyclicReference .list)
    else
      let index ← ofExcept index.toInt
      if index < minWord || maxWord < index then throw .internal
      let items := (← get).list cell
      let cut := cutPosition items.length index
      growList cell (items.take cut ++ item :: items.drop cut)
      return target
  | _ => fault (.wrongKind .list target.kind)

/-- Adds an item at the end of a List. -/
def append (target item : Value) : Mem Value := do
  match target with
  | .list cell =>
    if item.same target then fault (.cyclicReference .list)
    else
      modify (·.pushItem cell item)
      return target
  | _ => fault (.wrongKind .list target.kind)

/-- Adds the entries of one Object to another; with `keep` a key that is bound keeps its value. -/
def mergeEntries (keep : Bool) (entries : List (String × Value)) (table : Table String Value) :
    Table String Value :=
  entries.foldl
    (fun table (key, value) =>
      if keep && table.contains key then table else table.insert key value)
    table

/-- Adds the elements of a List to a List, before an index or at the end, or the entries of an
Object to an Object. -/
def extend (target other place : Value) : Mem Value := do
  match target, other with
  | .list cell, .list source =>
    let added := (← get).list source
    if added.any (·.same target) then fault (.cyclicReference .list)
    else
      let items := (← get).list cell
      let cut ← match place with
        | .nil => pure items.length
        | place => cutPosition items.length <$> ofExcept place.toInt
      if !added.isEmpty then growList cell (items.take cut ++ added ++ items.drop cut)
      return target
  | .list _, _ => fault (.wrongKind .list other.kind)
  | .object cell, .object source =>
    let heap ← get
    let added := heap.object source
    if added.values.any (·.same target) then fault (.cyclicReference .object)
    else
      let keep := match place with
        | .nil => false
        | place => heap.text place == "keep"
      setObject cell (mergeEntries keep added.entries (heap.object cell))
      return target
  | .object _, _ => fault (.wrongKind .object other.kind)
  | _, _ => fault (.wrongKind .list target.kind)

/-- Replaces an item of a List or sets a key of an Object. -/
def setItem (target key item : Value) : Mem Unit := do
  if item.same target then fault (.cyclicReference target.kind)
  else match target with
    | .list cell =>
      let index ← ofExcept key.toInt
      match position? ((← get).listLength cell) index with
      | some position => modify (·.setItem cell position item)
      | none => fault (.expected (.indexInRange index))
    | .object cell =>
      let heap ← get
      setObject cell ((heap.object cell).insert (heap.text key) item)
    | _ => fault (.wrongKind .list target.kind)

end Mem

end Vimlet
