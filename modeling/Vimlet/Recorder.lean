import Vimlet.Session.Basic

/-!
# Recording hosts

A host that keeps what scripts print as a list of effects.
-/

namespace Vimlet

/-- A host that records what it is asked to put out. -/
structure Recorder where
  options : Table String Value := {}
  silent : Bool := false
  effects : Array Effect := #[]
deriving Repr

namespace Recorder

/-- Records an output. -/
def record (topic : Topic) (message : String) (recorder : Recorder) : Recorder :=
  { recorder with effects := recorder.effects.push ⟨topic, message⟩ }

def setSilent (silent : Bool) (recorder : Recorder) : Recorder := { recorder with silent }

/-- Records a message of a script unless the host is silent. -/
def echo (message : String) (recorder : Recorder) : Recorder :=
  if recorder.silent then recorder else recorder.record .stdout message

/-- Records an error message, also if the host is silent. -/
def reportError (message : String) (recorder : Recorder) : Recorder :=
  recorder.record .stderr message

/-- The value of an option. -/
def option (name : String) (recorder : Recorder) : Except Fault Value :=
  match recorder.options.get? name with
  | some value => .ok value
  | none => .error (.variableUndefined ("&" ++ name))

/-- The recording host without commands and functions of its own. -/
def host : Host Recorder where
  setSilent := setSilent
  echo := echo
  reportError := reportError
  option := option
  effects := effects
  command := fun _ _ _ _ => throw .internal
  function := fun _ _ => throw .internal

end Recorder

end Vimlet
