import Vimlet.Session.Basic

/-!
# Starting computations

The outermost computation in a session starts the watchdog, and turns nesting that is too deep into
a fault of the script.
-/

namespace Vimlet

variable {σ α : Type}

/-- Statements that may be executed in one second. -/
def statementsPerSecond : Float := 200000.0

/-- How many statements there is time for. -/
def allowance (seconds : Float) : Nat :=
  if seconds.isNaN then Nat.pow 2 64 else (seconds * statementsPerSecond).toUInt64.toNat

/-- Drops the innermost frames beyond a number of frames. -/
def Namespace.cutTo {α : Type} (space : Namespace α) (depth : Nat) : Namespace α :=
  { space with frames := space.frames.drop (space.frames.length - depth) }

/-- Restores the frames and counters that an aborted computation may have left behind. -/
def Session.unwind (session : Session σ) (variableDepth functionDepth : Nat) : Session σ :=
  { session with
    vars := session.vars.cutTo variableDepth
    functions := session.functions.cutTo functionDepth
    functionDepth := 0
    loopDepth := 0
    silence := 0 }

/-- The session as a run begins; the outermost one gets new time. -/
def Session.begin (session : Session σ) : Session σ :=
  let session :=
    if session.runs = 0 then
      { session with patience := allowance session.timeout, currentLine := none }
    else session
  { session with runs := session.runs + 1 }

/-- A computation that may be the outermost one. -/
def Run.enclosed (act : Run σ α) : Run σ α := fun session =>
  let runs := session.runs
  match act session.begin with
  | .ok value after => .ok value { after with runs }
  | .error .tooDeep after =>
    if runs = 0 then
      let after := after.unwind session.vars.depth session.functions.depth
      .error (.fault (.callDepthExceeded after.maxFunctionDepth)) { after with runs }
    else .error .tooDeep { after with runs }
  | .error stop after => .error stop { after with runs }

end Vimlet
