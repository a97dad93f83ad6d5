import Vimlet.Proofs.Namespace.Update

/-!
# What a barrier hides

A namespace with a barrier among its frames can be put over any other frames: every operation then
does what it does without them, and they stay as they are.
-/

namespace Vimlet

variable {α : Type}
variable {space : Namespace α} {above : Nat}

/-! ### Frames above hidden frames -/

namespace Frame

theorem closed_of_cons {frame : Frame α} {outer} (closed : openToGlobal (frame :: outer) = false)
    (passes : frame.barrier = false) : openToGlobal outer = false := by
  simpa [openToGlobal, passes] using closed

variable {top : List (Frame α)} (closed : openToGlobal top = false) (hidden : List (Frame α))

include closed

theorem openToGlobal_onto : openToGlobal (top ++ hidden) = false := by
  unfold openToGlobal at *
  rw [List.all_append, closed, Bool.false_and]

theorem find?_onto (name : String) : find? name (top ++ hidden) = find? name top := by
  induction top with
  | nil => cases closed
  | cons frame outer ih =>
    cases stops : frame.barrier with
    | true => simp [find?, stops]
    | false => simp [find?, stops, ih (closed_of_cons closed stops)]

theorem update_onto (found : Frame α → Bool) (change : Frame α → Frame α) :
    update found change (top ++ hidden) = (update found change top).map (· ++ hidden) := by
  induction top with
  | nil => cases closed
  | cons frame outer ih =>
    by_cases here : found frame = true
    · simp [update, here]
    cases stops : frame.barrier with
    | true => simp [update, here, stops]
    | false => simp [update, here, stops, ih (closed_of_cons closed stops), Function.comp_def]

theorem update_barrier_isSome (change : Frame α → Frame α) :
    (update (·.barrier) change top).isSome = true := by
  induction top with
  | nil => cases closed
  | cons frame outer ih =>
    cases stops : frame.barrier with
    | true => simp [update, stops]
    | false => simp [update, stops, ih (closed_of_cons closed stops)]

end Frame

/-! ### Namespaces above hidden frames -/

namespace Namespace

/-- The namespace with more frames below its own. -/
def onto (space : Namespace α) (hidden : List (Frame α)) : Namespace α :=
  { space with frames := space.frames ++ hidden }

theorem table_onto (space : Namespace α) (hidden : List (Frame α)) (scope : Scope) :
    (space.onto hidden).table scope = space.table scope := by cases scope <;> rfl

theorem setTable_onto (space : Namespace α) (hidden : List (Frame α)) (scope : Scope)
    (table : Table String α) :
    (space.onto hidden).setTable scope table =
      (space.setTable scope table).map (·.onto hidden) := by
  cases scope with
  | global | builtin | «local» => rfl
  | buffer | window | script =>
    simp only [setTable, Scoped.setTable, Scoped.activeId, onto]
    split <;> rfl

section Closed

variable (closed : Frame.openToGlobal space.frames = false) (hidden : List (Frame α))

include closed

theorem find?_onto (name : String) : (space.onto hidden).find? name = space.find? name := by
  have local_eq (bare : String) :
      (space.onto hidden).findLocal? bare = space.findLocal? bare := by
    simp [findLocal?, onto, Frame.find?_onto closed, Frame.openToGlobal_onto closed, closed]
  simp only [find?, local_eq, table_onto]

theorem insertLocal_onto (bare : String) (value : α) :
    (space.onto hidden).insertLocal bare value = (space.insertLocal bare value).onto hidden := by
  simp only [insertLocal, onto, Frame.update_onto closed]
  cases Frame.update (·.bindings.contains bare) (·.insert bare value) space.frames with
  | some frames => rfl
  | none =>
    have := Frame.update_barrier_isSome closed (·.insert bare value)
    cases updated : Frame.update (·.barrier) (·.insert bare value) space.frames with
    | some frames => rfl
    | none => simp [updated] at this

theorem insert_onto (name : String) (value : α) :
    (space.onto hidden).insert name value = (space.insert name value).map (·.onto hidden) := by
  simp only [insert, table_onto, setTable_onto, insertLocal_onto closed]
  rcases resolve name with cause | ⟨scope, bare⟩
  · rfl
  cases scope with
  | global | builtin | «local» => rfl
  | buffer | window | script =>
    simp only [bind, Except.bind]
    cases space.table _ <;> rfl

theorem declare_onto (name : String) (value : α) :
    (space.onto hidden).declare name value = (space.declare name value).map (·.onto hidden) := by
  simp only [declare, insert_onto closed]
  rcases resolve name with cause | ⟨scope, bare⟩
  · rfl
  cases frames_eq : space.frames with
  | nil => simp [frames_eq, Frame.openToGlobal] at closed
  | cons frame outer =>
    simp only [onto, frames_eq, List.cons_append]
    cases scope <;> rfl

theorem removeLocal?_onto (bare : String) :
    (space.onto hidden).removeLocal? bare = (space.removeLocal? bare).map (·.onto hidden) := by
  simp only [removeLocal?, onto, Frame.update_onto closed, Frame.openToGlobal_onto closed, closed]
  cases Frame.update (·.bindings.contains bare) (·.erase bare) space.frames <;> rfl

theorem remove?_onto (name : String) :
    (space.onto hidden).remove? name =
      (space.remove? name).map (Option.map (·.onto hidden)) := by
  simp only [remove?, table_onto, setTable_onto, removeLocal?_onto closed]
  rcases resolve name with cause | ⟨scope, bare⟩
  · rfl
  have written (table : Table String α) :
      (do if table.contains bare = true then
            return some (← (space.setTable scope (table.erase bare)).map (·.onto hidden))
          else return none : Except Fault (Option (Namespace α))) =
        (do if table.contains bare = true then
              return some (← space.setTable scope (table.erase bare))
            else return none : Except Fault (Option (Namespace α))).map
          (Option.map (·.onto hidden)) := by
    split
    · cases space.setTable scope (table.erase bare) <;> rfl
    · rfl
  cases scope with
  | builtin | «local» => rfl
  | global => exact written _
  | buffer | window | script =>
    simp only [bind, Except.bind]
    cases space.table _ with
    | error cause => rfl
    | ok table => exact written table

end Closed

/-! ### Sequences of operations -/

/-- An operation on a namespace. -/
inductive Operation (α : Type) where
  | insert (name : String) (value : α)
  | declare (name : String) (value : α)
  | remove (name : String)
  | find (name : String)
  /-- Asks for the value of a name, or a default. -/
  | get (name : String) (default : α)
  | enter (barrier : Bool)
  | leave

/-- What an operation answers if it does not fail. -/
inductive Answer (α : Type) where
  | done
  | removed (wasBound : Bool)
  | found (value : Option α)
  | value (value : α)
  | noFrame
  deriving DecidableEq

namespace Operation

/-- The answer of a change, and the namespace afterwards: a change that fails leaves it as it is. -/
def change (space : Namespace α) :
    Except Fault (Namespace α) → Except Fault (Answer α) × Namespace α
  | .ok after => (.ok .done, after)
  | .error cause => (.error cause, space)

/-- The answer of an operation, and the namespace afterwards. -/
def apply (space : Namespace α) : Operation α → Except Fault (Answer α) × Namespace α
  | .insert name value => change space (space.insert name value)
  | .declare name value => change space (space.declare name value)
  | .remove name =>
    match space.remove? name with
    | .ok (some after) => (.ok (.removed true), after)
    | .ok none => (.ok (.removed false), space)
    | .error cause => (.error cause, space)
  | .find name => ((space.find? name).map .found, space)
  | .get name default => ((space.find? name).map fun found => .value (found.getD default), space)
  | .enter barrier => (.ok .done, space.enter barrier)
  | .leave =>
    match space.leave? with
    | some after => (.ok .done, after)
    | none => (.ok .noFrame, space)

/-- The number of frames above a frame after an operation that does not pop the frame itself. -/
def level : Nat → Operation α → Option Nat
  | above, .enter _ => some (above + 1)
  | above + 1, .leave => some above
  | 0, .leave => none
  | above, _ => some above

end Operation

/-- The answers of a sequence of operations, and the namespace afterwards. -/
def perform : List (Operation α) → Namespace α → List (Except Fault (Answer α)) × Namespace α
  | [], space => ([], space)
  | operation :: rest, space =>
    let (answer, after) := operation.apply space
    let (answers, last) := perform rest after
    (answer :: answers, last)

/-- A sequence of operations does not pop a frame with a number of frames above it. -/
def staysAbove : Nat → List (Operation α) → Bool
  | _, [] => true
  | above, operation :: rest => (operation.level above).any (staysAbove · rest)

/-- The outermost frame is a barrier, with a number of frames above it. -/
def Grounded (above : Nat) (space : Namespace α) : Prop :=
  ∃ barriers : List Bool,
    barriers.length = above ∧ space.frames.map (·.barrier) = barriers ++ [true]

namespace Grounded

variable {after : Namespace α}

theorem closed (grounded : Grounded above space) : Frame.openToGlobal space.frames = false := by
  obtain ⟨barriers, -, frames_eq⟩ := grounded
  have open_eq : Frame.openToGlobal space.frames = (space.frames.map (·.barrier)).all (!·) := by
    simp [Frame.openToGlobal, Function.comp_def]
  rw [open_eq, frames_eq]
  simp

theorem updated (grounded : Grounded above space) (update : Updated space after) :
    Grounded above after := by
  obtain ⟨barriers, length_eq, frames_eq⟩ := grounded
  exact ⟨barriers, length_eq, update.frames.map_barrier.trans frames_eq⟩

theorem change {result} (grounded : Grounded above space)
    (update : ∀ {after}, result = .ok after → Updated space after) :
    Grounded above (Operation.change space result).2 := by
  cases result with
  | error cause => exact grounded
  | ok after => exact grounded.updated (update rfl)

theorem enter (grounded : Grounded above space) (barrier : Bool) :
    Grounded (above + 1) (space.enter barrier) := by
  obtain ⟨barriers, length_eq, frames_eq⟩ := grounded
  exact ⟨barrier :: barriers, by simp [length_eq], by simp [Namespace.enter, frames_eq]⟩

/-- A frame above the outermost one can be popped, whatever is hidden. -/
theorem leave (grounded : Grounded (above + 1) space) :
    ∃ after, space.leave? = some after ∧ Grounded above after ∧
      ∀ hidden, (space.onto hidden).leave? = some (after.onto hidden) := by
  obtain ⟨barriers, length_eq, frames_eq⟩ := grounded
  obtain ⟨barrier, barriers, rfl⟩ := List.exists_cons_of_length_eq_add_one length_eq
  obtain ⟨frame, outer, frames_cons, -, outer_eq⟩ := List.map_eq_cons_iff.mp frames_eq
  have length_eq : barriers.length = above := by simpa using length_eq
  exact ⟨{ space with frames := outer }, by simp [leave?, frames_cons],
    ⟨barriers, length_eq, outer_eq⟩, by simp [leave?, onto, frames_cons]⟩

end Grounded

namespace Operation

variable {next : Nat}

theorem change_onto (result : Except Fault (Namespace α)) (hidden : List (Frame α)) :
    change (space.onto hidden) (result.map (·.onto hidden)) =
      Prod.map id (·.onto hidden) (change space result) := by cases result <;> rfl

/-- An operation that does not pop the outermost frame keeps it in its place. -/
theorem apply_grounded (operation : Operation α) (stays : operation.level above = some next)
    (grounded : Grounded above space) : Grounded next (operation.apply space).2 := by
  cases operation with
  | insert name value =>
    cases stays
    exact grounded.change insert_updated
  | declare name value =>
    cases stays
    exact grounded.change declare_updated
  | remove name =>
    cases stays
    cases removed : space.remove? name with
    | error cause => simpa [apply, removed] using grounded
    | ok result =>
      cases result with
      | none => simpa [apply, removed] using grounded
      | some after => simpa [apply, removed] using grounded.updated (remove_updated removed)
  | find name | get name default =>
    cases stays
    exact grounded
  | enter barrier =>
    cases stays
    exact grounded.enter barrier
  | leave =>
    cases above with
    | zero => cases stays
    | succ above =>
      cases stays
      obtain ⟨after, left, kept, -⟩ := grounded.leave
      simpa [apply, left] using kept

/-- An operation that does not pop the outermost frame does the same, whatever is hidden below. -/
theorem apply_onto (operation : Operation α) (stays : operation.level above = some next)
    (grounded : Grounded above space) (hidden : List (Frame α)) :
    operation.apply (space.onto hidden) =
      Prod.map id (·.onto hidden) (operation.apply space) := by
  have closed := grounded.closed
  cases operation with
  | insert name value => simp only [apply, insert_onto closed, change_onto]
  | declare name value => simp only [apply, declare_onto closed, change_onto]
  | remove name =>
    simp only [apply, remove?_onto closed]
    rcases space.remove? name with cause | _ | after <;> rfl
  | find name | get name default =>
    simp only [apply, find?_onto closed]
    rfl
  | enter barrier => rfl
  | leave =>
    cases above with
    | zero => cases stays
    | succ above =>
      obtain ⟨after, left, -, left_onto⟩ := grounded.leave
      simp [apply, left, left_onto]

end Operation

/-- What holds of one operation holds of a sequence. -/
theorem perform_onto (operations : List (Operation α)) (stays : staysAbove above operations = true)
    (grounded : Grounded above space) :
    (∃ last, Grounded last (perform operations space).2) ∧
      ∀ hidden, perform operations (space.onto hidden) =
        Prod.map id (·.onto hidden) (perform operations space) := by
  induction operations generalizing above space with
  | nil => exact ⟨⟨above, grounded⟩, fun _ => rfl⟩
  | cons operation rest ih =>
    cases level_eq : operation.level above with
    | none => simp [staysAbove, level_eq] at stays
    | some next =>
      have stays : staysAbove next rest = true := by simpa [staysAbove, level_eq] using stays
      obtain ⟨last, same⟩ := ih stays (operation.apply_grounded level_eq grounded)
      refine ⟨last, fun hidden => ?_⟩
      simp [perform, operation.apply_onto level_eq grounded hidden, same hidden]

/-! ### Two namespaces -/

/-- The namespaces differ in their frames at most. -/
structure SameTables (first second : Namespace α) : Prop where
  globals : first.globals = second.globals
  builtins : first.builtins = second.builtins
  buffers : first.buffers = second.buffers
  windows : first.windows = second.windows
  scripts : first.scripts = second.scripts

theorem sameTables_onto (space : Namespace α) (hidden hidden' : List (Frame α)) :
    SameTables (space.onto hidden) (space.onto hidden') := ⟨rfl, rfl, rfl, rfl, rfl⟩

/-- The namespace with a fresh barrier only. -/
def walled (space : Namespace α) : Namespace α := { space with frames := [{ barrier := true }] }

theorem grounded_walled (space : Namespace α) : Grounded 0 space.walled := ⟨[], rfl, rfl⟩

theorem enter_barrier (space : Namespace α) :
    space.enter true = space.walled.onto space.frames := rfl

theorem SameTables.walled {first second : Namespace α} (same : SameTables first second) :
    first.walled = second.walled := by
  obtain ⟨globals, builtins, buffers, windows, scripts⟩ := same
  simp only [Namespace.walled, globals, builtins, buffers, windows, scripts]

/-- A barrier hides the frames below it. Two namespaces that differ in their frames only, with a
barrier pushed on both, answer every sequence of operations that does not pop it in the same way.
The tables and the frames from the barrier on stay the same, and the frames below as they were. -/
theorem perform_behind_barrier {first second : Namespace α} (same : SameTables first second)
    (operations : List (Operation α)) (stays : staysAbove 0 operations = true) :
    (perform operations (first.enter true)).1 = (perform operations (second.enter true)).1 ∧
      SameTables (perform operations (first.enter true)).2
        (perform operations (second.enter true)).2 ∧
      ∃ (above : List (Frame α)) (pushed : Frame α), pushed.barrier = true ∧
        (perform operations (first.enter true)).2.frames = above ++ pushed :: first.frames ∧
        (perform operations (second.enter true)).2.frames = above ++ pushed :: second.frames := by
  obtain ⟨⟨last, barriers, -, frames_eq⟩, performed⟩ :=
    perform_onto operations stays (grounded_walled first)
  obtain ⟨above, outermost, append_eq, -, outermost_eq⟩ := List.map_eq_append_iff.mp frames_eq
  obtain ⟨pushed, rfl, is_barrier⟩ := List.map_eq_singleton_iff.mp outermost_eq
  rw [enter_barrier first, enter_barrier second, ← same.walled, performed, performed]
  exact ⟨rfl, sameTables_onto _ _ _, above, pushed, is_barrier, by simp [onto, append_eq],
    by simp [onto, append_eq]⟩

theorem perform_behind_barrier_shadowed :
    let first : Namespace Nat :=
      { globals := .ofList [("x", 7)]
        frames := [{ bindings := .ofList [("x", 1)], barrier := false }] }
    let second : Namespace Nat := { globals := .ofList [("x", 7)] }
    let operations : List (Operation Nat) :=
      [.find "x", .get "X" 0, .insert "x" 2, .enter false, .declare "x" 3, .find "x", .leave,
        .insert "v:x" 4, .remove "b:x", .remove "x", .remove "x"]
    SameTables first second ∧ staysAbove 0 operations = true ∧
      (perform operations (first.enter true)).1 = (perform operations (second.enter true)).1 :=
  ⟨⟨rfl, rfl, rfl, rfl, rfl⟩, rfl,
    (perform_behind_barrier ⟨rfl, rfl, rfl, rfl, rfl⟩ _ rfl).1⟩

end Namespace

end Vimlet
