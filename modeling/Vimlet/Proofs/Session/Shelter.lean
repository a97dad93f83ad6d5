import Vimlet.Proofs.Namespace.Update
import Vimlet.Proofs.Session.Lasting
import Vimlet.Recorder

/-!
# A call shelters the frames of its caller

The frame of a call is a barrier, so whatever the body does, the frames that were there before the
call are there afterwards with the same bindings.
-/

namespace Vimlet

variable {σ : Type}

/-! ### Frames under other ones -/

/-- Frames lie under newer ones, and only names that can be seen from the innermost of them may have
been rebound. -/
def Frame.Sheltered {α : Type} (before after : List (Frame α)) : Prop :=
  ∃ pushed kept, after = pushed ++ kept ∧ Frame.Rebound before kept

namespace Frame.Sheltered

variable {α : Type} {before after : List (Frame α)}

theorem of_rebound (rebound : Rebound before after) : Sheltered before after :=
  ⟨[], after, rfl, rebound⟩

theorem refl (frames : List (Frame α)) : Sheltered frames frames := of_rebound (.refl frames)

theorem trans {first second third : List (Frame α)} (before : Sheltered first second)
    (after : Sheltered second third) : Sheltered first third := by
  obtain ⟨pushed, kept, rfl, rebound⟩ := before
  obtain ⟨more, rest, rfl, again⟩ := after
  obtain ⟨others, last, rfl, inner⟩ := again.of_append
  exact ⟨more ++ others, last, (List.append_assoc _ _ _).symm, rebound.trans inner⟩

theorem of_append {pushed kept} (sheltered : Sheltered before kept) :
    Sheltered before (pushed ++ kept) := by
  obtain ⟨more, rest, rfl, rebound⟩ := sheltered
  exact ⟨pushed ++ more, rest, (List.append_assoc _ _ _).symm, rebound⟩

/-- Frames under a barrier are kept as they are when one frame is popped. -/
theorem suffix_tail {barrier} (stops : barrier.barrier = true)
    (sheltered : Sheltered (barrier :: before) after) : before <:+ after.tail := by
  obtain ⟨pushed, kept, rfl, rebound⟩ := sheltered
  cases rebound with
  | visible opens _ _ =>
    rw [stops] at opens
    cases opens
  | @barrier _ other _ _ _ =>
    cases pushed with
    | nil => exact List.suffix_rfl
    | cons frame pushed => exact ⟨pushed ++ [other], by simp⟩

theorem tail {frame} (opens : frame.barrier = false) (sheltered : Sheltered (frame :: before) after) :
    Sheltered before after.tail := by
  obtain ⟨pushed, kept, rfl, rebound⟩ := sheltered
  cases rebound with
  | barrier _ stops _ =>
    rw [opens] at stops
    cases stops
  | @visible _ other _ others _ _ rest =>
    cases pushed with
    | nil => exact of_rebound rest
    | cons first pushed =>
      have under : Sheltered before ((pushed ++ [other]) ++ others) :=
        (of_rebound rest).of_append
      simpa using under

theorem drop (sheltered : Sheltered before after) :
    Sheltered before (after.drop (after.length - before.length)) := by
  obtain ⟨pushed, kept, rfl, rebound⟩ := sheltered
  have dropped : (pushed ++ kept).length - before.length = pushed.length := by
    rw [List.length_append, rebound.length_eq, Nat.add_sub_cancel]
  rw [dropped, List.drop_left]
  exact of_rebound rebound

end Frame.Sheltered

theorem Frame.Sheltered.of_suffix {α : Type} {before after : List (Frame α)}
    (suffix : before <:+ after) : Sheltered before after := by
  obtain ⟨pushed, rfl⟩ := suffix
  exact ⟨pushed, before, rfl, .refl before⟩

@[simp]
theorem Namespace.frames_left {α : Type} (space : Namespace α) :
    (space.leave?.getD space).frames = space.frames.tail := by
  unfold leave?
  split <;> simp [*]

/-! ### Sessions -/

namespace Session

/-- The frames of both namespaces lie under newer ones. -/
structure Sheltered (before after : Session σ) : Prop where
  vars : Frame.Sheltered before.vars.frames after.vars.frames
  functions : Frame.Sheltered before.functions.frames after.functions.frames

theorem Sheltered.refl (session : Session σ) : session.Sheltered session :=
  ⟨.refl _, .refl _⟩

/-- After a call, the frames of both namespaces are under newer ones as they were before. -/
theorem Sheltered.leaveFunction {session after : Session σ} (loopDepth : Nat)
    (sheltered : session.enterFunction.Sheltered after) :
    session.vars.frames <:+ (after.leaveFunction loopDepth).vars.frames ∧
      session.functions.frames <:+ (after.leaveFunction loopDepth).functions.frames := by
  simp only [Session.leaveFunction, leave, Namespace.frames_left]
  exact ⟨sheltered.vars.suffix_tail rfl, sheltered.functions.suffix_tail rfl⟩

end Session

/-- The handlers of a host pop no frames that they find, and rebind only names that they can see.
-/
structure Host.Shelters (host : Host σ) : Prop where
  command (id : Nat) (range : LineRange) (bang : Bool) (params : String) :
    Kept Session.Sheltered (host.command id range bang params)
  function (id : Nat) (args : List Value) : Kept Session.Sheltered (host.function id args)

theorem Host.Shelters.lasting {host : Host σ} (shelters : host.Shelters) :
    WalkLasting host Session.Sheltered where
  refl := .refl
  trans before after := ⟨before.vars.trans after.vars, before.functions.trans after.functions⟩
  heap session _ := ⟨.refl _, .refl _⟩
  echo session _ := ⟨.refl _, .refl _⟩
  trace session _ := ⟨.refl _, .refl _⟩
  patience session _ := ⟨.refl _, .refl _⟩
  line session _ := ⟨.refl _, .refl _⟩
  assign inserted := ⟨.of_rebound (Namespace.insert_updated inserted).frames, .refl _⟩
  declare declared := ⟨.of_rebound (Namespace.declare_updated declared).frames, .refl _⟩
  unlet removed := ⟨.of_rebound (Namespace.remove_updated removed).frames, .refl _⟩
  define inserted := ⟨.refl _, .of_rebound (Namespace.insert_updated inserted).frames⟩
  script _ sheltered := ⟨sheltered.vars, sheltered.functions⟩
  callback _ _ sheltered := ⟨sheltered.vars, sheltered.functions⟩
  enclosed {session after} sheltered :=
    ⟨session.begin_vars ▸ sheltered.vars, session.begin_functions ▸ sheltered.functions⟩
  unwound {session after} _ sheltered :=
    ⟨(session.begin_vars ▸ sheltered.vars).drop,
      (session.begin_functions ▸ sheltered.functions).drop⟩
  call _ sheltered :=
    have kept := sheltered.leaveFunction _
    ⟨.of_suffix kept.1, .of_suffix kept.2⟩
  silent sheltered := ⟨sheltered.vars, sheltered.functions⟩
  unsilent sheltered := ⟨sheltered.vars, sheltered.functions⟩
  loop sheltered := ⟨sheltered.vars, sheltered.functions⟩
  frame {session after} sheltered := by
    constructor
    · simpa [Session.leave] using sheltered.vars.tail rfl
    · simpa [Session.leave] using sheltered.functions.tail rfl
  command := shelters.command
  function := shelters.function

theorem Recorder.host_shelters : Recorder.host.Shelters where
  command _ _ _ _ session := .refl session
  function _ _ session := .refl session

/-- However a call of a user function ends, every frame from before is in its place with the same
bindings. -/
theorem callUser_shelters {host : Host σ} (shelters : host.Shelters) (depth : Nat)
    (function : UserFunction) (args : List Value) (session : Session σ) :
    let after := left (callUser (Engine.ofDepth host depth) function args session)
    session.vars.frames <:+ after.vars.frames ∧
      session.functions.frames <:+ after.functions.frames := by
  obtain ⟨cause, stops⟩ | ⟨_, calls⟩ := callUser_cases function args session
  · rw [stops]
    exact ⟨List.suffix_rfl, List.suffix_rfl⟩
  · have lasting := shelters.lasting
    have runs := (lasting.engine depth).run function.body
    have inside := @CallCongruence.runBody _ _ _ _ lasting.congruence.toCallCongruence [] _
      (Engine.ofDepth host depth) function args runs
      (session.noted (callNote function args)).enterFunction
    rw [calls, left_onLeft, left_afterCall]
    simpa using inside.leaveFunction session.loopDepth

/-- A function that binds and removes names of its caller. -/
theorem callUser_shelters_rebinding :
    let function : UserFunction :=
      ⟨"F", ["x"], scriptLines
        "for [x, y] in [[2, 3]]\nunlet x\nlet x = y\nexecute 'let y = x'\nendfor\nreturn x"⟩
    let frame : Frame Value := Frame.insert ⟨{}, false⟩ "x" (.integer 1)
    let session : Session Recorder :=
      { Session.new {} 5.0 with runs := 1, patience := 20, vars.frames := [frame.insert "y" .nil] }
    let ending := callUser (Engine.ofDepth Recorder.host 4) function [.integer 5] session
    (match ending with
      | .ok (.integer 3) _ => true
      | _ => false) = true ∧
      session.vars.frames <:+ (left ending).vars.frames ∧
      session.functions.frames <:+ (left ending).functions.frames :=
  ⟨by decide +kernel, callUser_shelters Recorder.host_shelters 4 _ _ _⟩

end Vimlet
