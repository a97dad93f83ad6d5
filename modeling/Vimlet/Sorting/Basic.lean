import Vimlet.Sorting.Merge

/-!
# Sorting

A stable sort that finds the runs which are already sorted, makes short ones longer by insertion,
and merges neighbouring runs. Which runs are merged, and when, is decided by their lengths alone. It
asks an effectful comparison; when the comparison stops, the elements are left as they are arranged
at that moment.
-/

namespace Vimlet.Sorting

variable {m : Type → Type} [Monad m] {ε α : Type}

/-! ### Runs -/

/-- The longest run at the front, descending or ascending, the latest element first, and the
elements after it. `run` has the elements before. -/
@[specialize]
def takeRun (less : α → α → ExceptT ε m Bool) (descending : Bool) (last : α) (run : List α) :
    List α → ExceptT ε m (List α × List α)
  | [] => return (last :: run, [])
  | next :: rest => do
    if (← less next last) == descending then takeRun less descending next (last :: run) rest
    else return (last :: run, next :: rest)

/-- The run at the front in ascending order, and the elements after it. -/
@[specialize]
def firstRun (less : α → α → ExceptT ε m Bool) (first : α) :
    List α → ExceptT ε m (List α × List α)
  | [] => return ([first], [])
  | second :: rest => do
    let descending ← less second first
    let (run, rest) ← takeRun less descending second [first] rest
    return (if descending then run else run.reverse, rest)

/-- Inserts elements into sorted ones, one after the other, each after all that are not greater. -/
@[specialize]
def insertAll (less : α → α → ExceptT ε m Bool) (sorted : List α) :
    List α → ExceptT (Stopped ε α) m (List α)
  | [] => return sorted
  | item :: rest => do
    let place ← among (fun _ => sorted ++ item :: rest) (placeOf less item sorted)
    insertAll less (sorted.take place ++ item :: sorted.drop place) rest

/-- The next run, made longer by insertion if it is shorter than `least`, and the elements after it.
-/
@[specialize]
def nextRun (less : α → α → ExceptT ε m Bool) (least : Nat) (first : α) (rest : List α) :
    ExceptT (Stopped ε α) m (List α × List α) := do
  let (run, after) ← among (fun _ => first :: rest) (firstRun less first rest)
  let missing := least - run.length
  let run ← within [] (after.drop missing) (insertAll less run (after.take missing))
  return (run, after.drop missing)

/-- The least length of a run: all elements if they are few, else a number between 32 and 64 that
nearly divides them into a power of two. -/
def leastRun (size : Nat) : Nat := halve size size 0
where
  /-- Halves a number until it is small, within `fuel` steps, and rounds up if a bit was lost. -/
  halve : Nat → Nat → Nat → Nat
    | 0, size, lost => size + lost
    | fuel + 1, size, lost =>
      if size < 64 then size + lost else halve fuel (size / 2) (max lost (size % 2))

/-! ### Pending runs -/

/-- A run that waits to be merged. -/
structure Pending (α : Type) where
  items : List α
  size : Nat
  start : Nat
  /-- How early the boundary after it should disappear: the greater, the earlier. -/
  power : Nat := 0

/-- The elements of pending runs, of which the last one comes first. -/
def stacked (pending : List (Pending α)) : List α := pending.reverse.flatMap Pending.items

/-- The first binary digit in which two fractions with one denominator differ, found within `fuel`
digits. -/
def firstDifference (denominator : Nat) : Nat → Nat → Nat → Nat
  | 0, _, _ => 1
  | fuel + 1, a, b =>
    if denominator ≤ a then
      firstDifference denominator fuel (2 * (a - denominator)) (2 * (b - denominator)) + 1
    else if denominator ≤ b then 1
    else firstDifference denominator fuel (2 * a) (2 * b) + 1

/-- The power of the boundary between two runs: the first binary digit in which their midpoints, as
parts of the whole, differ. -/
def boundaryPower (total : Nat) (run : Pending α) (next : Nat) : Nat :=
  let middle := 2 * run.start + run.size
  firstDifference total (total + 1) middle (middle + run.size + next)

/-- Merges two runs that wait. -/
@[specialize]
def mergePending (less : α → α → ExceptT ε m Bool) (threshold : Nat) (left right : Pending α) :
    ExceptT (Stopped ε α) m (Pending α × Nat) := do
  let (items, threshold) ← mergeRuns less threshold left.items right.items
  return ({ left with items, size := left.size + right.size }, threshold)

/-- Merges the last run with the runs before it whose boundary has a greater power. -/
@[specialize]
def mergeAbove (less : α → α → ExceptT ε m Bool) (power : Nat) (threshold : Nat)
    (last : Pending α) : List (Pending α) → ExceptT (Stopped ε α) m (List (Pending α) × Nat)
  | [] => return ([{ last with power }], threshold)
  | before :: pending => do
    if power < before.power then
      let (last, threshold) ← within (stacked pending) []
        (mergePending less threshold before last)
      mergeAbove less power threshold last pending
    else return ({ last with power } :: before :: pending, threshold)

/-- Merges the pending runs that should not wait for a next run of a given size. -/
@[specialize]
def mergeBefore (less : α → α → ExceptT ε m Bool) (total next threshold : Nat) :
    List (Pending α) → ExceptT (Stopped ε α) m (List (Pending α) × Nat)
  | [] => return ([], threshold)
  | last :: pending =>
    mergeAbove less (boundaryPower total last next) threshold last pending

/-- Merges the pending runs within `fuel` steps: the last two, or the two before the last one if
they are shorter. -/
@[specialize]
def mergeAll (less : α → α → ExceptT ε m Bool) :
    Nat → Nat → List (Pending α) → ExceptT (Stopped ε α) m (List α)
  | fuel + 1, threshold, last :: second :: third :: pending => do
    if third.size < last.size then
      let (merged, threshold) ← within (stacked pending) last.items
        (mergePending less threshold third second)
      mergeAll less fuel threshold (last :: merged :: pending)
    else
      let (merged, threshold) ← within (stacked (third :: pending)) []
        (mergePending less threshold second last)
      mergeAll less fuel threshold (merged :: third :: pending)
  | _ + 1, threshold, [last, second] => do
    let (merged, _) ← mergePending less threshold second last
    return merged.items
  | _, _, pending => return stacked pending

/-- Finds the runs of the remaining elements, and merges pending runs that should not wait for them.
-/
@[specialize]
def gather (less : α → α → ExceptT ε m Bool) (total : Nat) :
    Nat → Nat → Nat → List (Pending α) → List α →
      ExceptT (Stopped ε α) m (List (Pending α) × Nat)
  | fuel + 1, threshold, start, pending, first :: rest => do
    let (items, rest) ← within (stacked pending) [] (nextRun less (leastRun total) first rest)
    let run : Pending α := { items, size := items.length, start }
    let (pending, threshold) ← within [] (items ++ rest)
      (mergeBefore less total run.size threshold pending)
    gather less total fuel threshold (start + run.size) (run :: pending) rest
  | _, threshold, _, pending, _ => return (pending, threshold)

/-- How many wins in a row make it worthwhile to take stretches at first. -/
def firstThreshold : Nat := 7

/-- Sorts elements; equal ones keep their order. -/
@[specialize]
def sort (less : α → α → ExceptT ε m Bool) (items : List α) :
    ExceptT (Stopped ε α) m (List α) := do
  if items.length < 2 then return items
  let (pending, threshold) ← gather less items.length items.length firstThreshold 0 [] items
  mergeAll less pending.length threshold pending

end Vimlet.Sorting
