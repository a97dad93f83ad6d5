import Vimlet.Sorting.Search

/-!
# Merging sorted runs

Elements are taken one by one from the run whose next element comes first; once a run has won often
enough in a row, whole stretches are taken. Equal elements keep their order. A comparison that stops
leaves the elements as they are arranged at that moment.
-/

namespace Vimlet.Sorting

variable {m : Type → Type} [Monad m] {ε α : Type}

/-- Why a sort was stopped, and the items as it left them. -/
structure Stopped (ε α : Type) where
  stop : ε
  items : List α

/-- A step on a part of the elements, seen as a step on all of them. -/
@[inline]
def within {β : Type} (before after : List α) (action : ExceptT (Stopped ε α) m β) :
    ExceptT (Stopped ε α) m β :=
  action.adapt fun stopped => { stopped with items := before ++ stopped.items ++ after }

/-- A search that leaves the elements as they are. -/
@[inline]
def among {β : Type} (items : Unit → List α) (search : ExceptT ε m β) :
    ExceptT (Stopped ε α) m β :=
  search.adapt fun stop => ⟨stop, items ()⟩

/-- How elements are taken from two runs. -/
inductive Pace where
  /-- One by one. One run has won the last comparisons, the other none of them. -/
  | single (leftWins rightWins : Nat)
  | leftStretch
  /-- A stretch of the right run comes next, after one of the left run of this length. -/
  | rightStretch (leftLength : Nat)
  /-- Two stretches were taken, the longer one of this length. -/
  | stretched (length : Nat)
deriving DecidableEq, Repr

/-- Two runs on the way to become one. Upward their elements are listed from the first one on, and
downward from the last one on. -/
structure Merge (α : Type) where
  direction : Direction
  left : List α
  right : List α
  merged : List α := []
  pace : Pace := .single 0 0
  /-- How many wins in a row make it worthwhile to take stretches. -/
  threshold : Nat

namespace Merge

/-- A stretch of this length makes it worthwhile to look for more of them. -/
def longStretch : Nat := 7

/-- The items in the order in which they stand. -/
def arranged (merge : Merge α) : List α :=
  match merge.direction with
  | .upward => merge.merged.reverse ++ (merge.left ++ merge.right)
  | .downward => (merge.right ++ merge.left).reverse ++ merge.merged

/-- The remaining elements if their order is known: one run is used up, or a single element was put
aside. -/
def settled? (merge : Merge α) : Option (List α) :=
  match merge.direction, merge.left, merge.right with
  | .upward, left, [] => some left
  | .upward, [], right => some right
  | .upward, [last], right => some (right ++ [last])
  | .downward, [], right => some right
  | .downward, left, [] => some left
  | .downward, left, [last] => some (left ++ [last])
  | _, _, _ => none

/-- The single run, given the remaining elements in their order. -/
def finish (merge : Merge α) (rest : List α) : List α :=
  match merge.direction with
  | .upward => merge.merged.reverse ++ rest
  | .downward => rest.reverse ++ merge.merged

/-- Takes items of the left run. -/
def takeLeft (merge : Merge α) (count : Nat) : Merge α :=
  { merge with
    left := merge.left.drop count
    merged := (merge.left.take count).reverse ++ merge.merged }

/-- Takes items of the right run. -/
def takeRight (merge : Merge α) (count : Nat) : Merge α :=
  { merge with
    right := merge.right.drop count
    merged := (merge.right.take count).reverse ++ merge.merged }

/-- The pace after a comparison that the left run has won. -/
def leftWon (merge : Merge α) (wins : Nat) : Pace :=
  if merge.threshold ≤ wins then .leftStretch else .single wins 0

/-- The pace after a comparison that the right run has won. -/
def rightWon (merge : Merge α) (wins : Nat) : Pace :=
  if merge.threshold ≤ wins then .leftStretch else .single 0 wins

/-- The pace after two stretches. Long ones make stretches worthwhile sooner, short ones later. -/
def weigh (merge : Merge α) (length : Nat) : Merge α :=
  if longStretch ≤ length then
    { merge with threshold := max 1 (merge.threshold - 1), pace := .leftStretch }
  else { merge with threshold := merge.threshold + 1, pace := .single 0 0 }

/-- Whether an element of the left run is taken before one of the right run. -/
@[inline]
def leftFirst (less : α → α → ExceptT ε m Bool) (direction : Direction) (right left : α) :
    ExceptT ε m Bool := do
  return (← less right left) == (direction == .downward)

/-- How many elements of the left run are taken before an element of the right run. -/
@[specialize]
def leftStretch (less : α → α → ExceptT ε m Bool) (direction : Direction) (right : α)
    (left : List α) : ExceptT ε m Nat :=
  gallop (leftFirst less direction right) direction left

/-- How many elements of the right run are taken before an element of the left run. -/
@[specialize]
def rightStretch (less : α → α → ExceptT ε m Bool) (direction : Direction) (left : α)
    (right : List α) : ExceptT ε m Nat :=
  gallop (fun item => do return !(← leftFirst less direction item left)) direction right

/-- One step. After a stretch the first element of the other run is taken, which comes next. -/
@[specialize]
def step (less : α → α → ExceptT ε m Bool) (merge : Merge α) : ExceptT ε m (Merge α) := do
  match merge.left, merge.right with
  | left :: _, right :: _ =>
    match merge.pace with
    | .single leftWins rightWins =>
      if ← leftFirst less merge.direction right left then
        return { merge.takeLeft 1 with pace := merge.leftWon (leftWins + 1) }
      else return { merge.takeRight 1 with pace := merge.rightWon (rightWins + 1) }
    | .leftStretch =>
      let length ← leftStretch less merge.direction right merge.left
      return { (merge.takeLeft length).takeRight 1 with pace := .rightStretch length }
    | .rightStretch leftLength =>
      let length ← rightStretch less merge.direction left merge.right
      return { (merge.takeRight length).takeLeft 1 with
        pace := .stretched (max leftLength length) }
    | .stretched length => return merge.weigh length
  | _, _ => return merge

/-- Steps until the order of the remaining elements is known. The answer is the run and the next
threshold. -/
@[specialize]
def steps (less : α → α → ExceptT ε m Bool) :
    Nat → Merge α → ExceptT (Stopped ε α) m (List α × Nat)
  | 0, merge => return (merge.arranged, merge.threshold)
  | fuel + 1, merge =>
    match merge.settled? with
    | some rest => return (merge.finish rest, merge.threshold)
    | none => do
      let next ← among (fun _ => merge.arranged) (merge.step less)
      steps less fuel next

/-- Merges two runs of which the right one has the first element and the left one the last. The
shorter is put aside. -/
@[specialize]
def interleave (less : α → α → ExceptT ε m Bool) (threshold : Nat) (left right : List α) :
    ExceptT (Stopped ε α) m (List α × Nat) :=
  let fuel := 2 * (left.length + right.length)
  if left.length ≤ right.length then
    steps less fuel (takeRight { direction := .upward, left, right, threshold } 1)
  else
    let merge : Merge α :=
      { direction := .downward, left := left.reverse, right := right.reverse, threshold }
    steps less fuel (merge.takeLeft 1)

end Merge

/-- Merges two neighbouring runs, but for elements at both ends that stay in place. -/
@[specialize]
def mergeRuns (less : α → α → ExceptT ε m Bool) (threshold : Nat) (left right : List α) :
    ExceptT (Stopped ε α) m (List α × Nat) := do
  match right with
  | [] => return (left, threshold)
  | first :: _ =>
    let front ← among (fun _ => left ++ right) (Merge.leftStretch less .upward first left)
    match (left.drop front).getLast? with
    | none => return (left ++ right, threshold)
    | some last =>
      let back ← among (fun _ => left ++ right)
        (Merge.rightStretch less .downward last right.reverse)
      let kept := right.length - back
      if kept = 0 then return (left ++ right, threshold)
      else
        let (merged, threshold) ← within (left.take front) (right.drop kept)
          (Merge.interleave less threshold (left.drop front) (right.take kept))
        return (left.take front ++ (merged ++ right.drop kept), threshold)

end Vimlet.Sorting
