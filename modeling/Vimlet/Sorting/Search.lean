/-!
# Counting what stands in front

How many elements at the front of a sequence have a property that no element after them has. The
property is asked with effects, and in a fixed order: first at positions that double, then by
halving what lies between the last two.
-/

namespace Vimlet.Sorting

variable {m : Type → Type} [Monad m] {ε α : Type}

/-- The end from which a sequence is worked through. -/
inductive Direction where
  | upward
  | downward
deriving DecidableEq, Repr

/-- The middle of a stretch of positions. Of two middles it is the later one, seen from the start of
the sequence. -/
def Direction.middle (direction : Direction) (low high : Nat) : Nat :=
  match direction with
  | .upward => low + (high - low) / 2
  | .downward => low + (high - low - 1) / 2

theorem Direction.middle_lt (direction : Direction) {low high : Nat} (h : low < high) :
    direction.middle low high < high := by
  cases direction <;> simp only [middle] <;> omega

theorem Direction.le_middle (direction : Direction) (low high : Nat) :
    low ≤ direction.middle low high := by
  cases direction <;> simp only [middle] <;> omega

/-- Finds by halving the first position between two ones at which a property fails. -/
@[specialize]
def bisect (passes : Nat → ExceptT ε m Bool) (direction : Direction) (low high : Nat) :
    ExceptT ε m Nat :=
  if _h : low < high then do
    let middle := direction.middle low high
    if ← passes middle then bisect passes direction (middle + 1) high
    else bisect passes direction low middle
  else return low
termination_by high - low
decreasing_by
  · have := direction.le_middle low high
    omega
  · have := direction.middle_lt _h
    have := direction.le_middle low high
    omega

/-- Finds the first position before `size` at which a property fails, by doubling and then by
halving. -/
@[specialize]
def gallopFrom (passes : Nat → ExceptT ε m Bool) (direction : Direction) (size low probe : Nat) :
    ExceptT ε m Nat :=
  if _h : probe < size then do
    if ← passes probe then gallopFrom passes direction size (probe + 1) (2 * probe + 1)
    else bisect passes direction low probe
  else bisect passes direction low size
termination_by size - probe

/-- How many elements at the front of a list have a property. -/
@[specialize]
def gallop (passes : α → ExceptT ε m Bool) (direction : Direction) (items : List α) :
    ExceptT ε m Nat :=
  gallopFrom (passesAt items) direction items.length 0 0
where
  passesAt (items : List α) (position : Nat) : ExceptT ε m Bool :=
    match items[position]? with
    | some item => passes item
    | none => return false

/-- How many elements of a sorted list are not greater than an element, found by halving. -/
@[specialize]
def placeOf (less : α → α → ExceptT ε m Bool) (item : α) (sorted : List α) : ExceptT ε m Nat :=
  bisect notGreaterAt .upward 0 sorted.length
where
  notGreaterAt (position : Nat) : ExceptT ε m Bool :=
    match sorted[position]? with
    | some other => do return !(← less item other)
    | none => return false

end Vimlet.Sorting
