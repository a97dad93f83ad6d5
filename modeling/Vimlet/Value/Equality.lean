import Vimlet.Value.Heap

/-!
# Equality

Structural equality of values. Values of different kinds are never equal, and Objects are equal if
they have the same keys, in any order, with equal values. On containers inside themselves the
comparison may have no end, which counts as nesting that is too deep.
-/

namespace Vimlet

/-- How far beyond the number of containers a walk follows nesting. Deeper nesting is a cycle. -/
def nestingLimit : Nat := 1250

/-- Whether all pairs are related, judged from left to right up to the first pair that is not. -/
def allPairs (related : Value → Value → Option Bool) : List (Value × Value) → Option Bool
  | [] => some true
  | (a, b) :: rest =>
    match related a b with
    | some true => allPairs related rest
    | other => other

/-- What the comparison of two values comes down to. -/
inductive Comparison where
  | answer (equal : Bool)
  /-- Two containers are equal if all these pairs of values are. -/
  | pairs (containers : Handle × Handle) (values : List (Value × Value))

namespace Heap

/-- Two Objects have the same keys. -/
def sameKeys (s t : Table String Value) : Bool :=
  s.size == t.size && s.keys.all t.contains

/-- The values of two tables under the keys of the first. -/
def pairedValues (s t : Table String Value) : List (Value × Value) :=
  s.entries.map fun (key, value) => (value, (t.get? key).getD .nil)

/-- Compares two values, or gives what must be equal in them. -/
def compare (heap : Heap) : Value → Value → Comparison
  | .list a, .list b =>
    if (heap.list a).length == (heap.list b).length then
      .pairs (.list a, .list b) ((heap.list a).zip (heap.list b))
    else .answer false
  | .object a, .object b =>
    if sameKeys (heap.object a) (heap.object b) then
      .pairs (.object a, .object b) (pairedValues (heap.object a) (heap.object b))
    else .answer false
  | .nil, .nil => .answer true
  | .bool a, .bool b => .answer (a == b)
  | .integer a, .integer b => .answer (a == b)
  | .number a, .number b => .answer (a == b)
  | .str a, .str b => .answer (a == b)
  | .function a, .function b => .answer (a.agrees b)
  | _, _ => .answer false

/-- Equality of values, or nothing if a comparison needs its own answer. `path` holds the
comparisons that need this one. -/
def equalFrom (heap : Heap) : Nat → List (Handle × Handle) → Value → Value → Option Bool
  | 0, _, a, b =>
    match heap.compare a b with
    | .answer equal => some equal
    | .pairs _ _ => none
  | fuel + 1, path, a, b =>
    match heap.compare a b with
    | .answer equal => some equal
    | .pairs containers values =>
      if path.contains containers then none
      else allPairs (equalFrom heap fuel (containers :: path)) values

/-- Equality of values, or nothing if it has no end. A path without repetition is no longer than the
number of pairs of containers. -/
def equal? (heap : Heap) (a b : Value) : Option Bool :=
  heap.equalFrom (heap.size * heap.size + 1) [] a b

end Heap

/-- Two values are equal. -/
def Mem.equal (a b : Value) : Mem Bool := do
  match (← get).equal? a b with
  | some answer => return answer
  | none => throw .tooDeep

end Vimlet
