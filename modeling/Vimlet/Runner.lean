import Vimlet.FileTree
import Vimlet.Interpreter

/-!
# Running scripts for a host

`runScript`, `runExpression` and `runFile` run in a session and give a report. A script that stops
makes a failure, which the host is told.
-/

namespace Vimlet

variable {σ : Type}

/-- The statement that a failure is attributed to. -/
structure Place where
  line : Nat
  text : String
deriving DecidableEq, Repr

/-- Why a call of a runner failed, and where. -/
structure Failure where
  message : String
  place : Option Place
deriving DecidableEq, Repr

/-- What a runner reports of a call. -/
structure Report where
  outcome : Except Failure Value
  effects : List Effect

/-- The text of a failure, with the number of the line if it is known. -/
def Failure.text (failure : Failure) : String :=
  match failure.place with
  | some ⟨line + 1, _⟩ => "Error on line " ++ Nat.repr (line + 1) ++ ": " ++ failure.message
  | _ => failure.message

/-- The message of a failure, or nothing. -/
def Report.errorText (report : Report) : String :=
  match report.outcome with
  | .ok _ => ""
  | .error failure => failure.text

/-- The place of the statement that was begun last. -/
def Session.place (session : Session σ) : Option Place :=
  session.currentLine.map fun line => ⟨line.number, line.text⟩

/-- The failure that a stop makes. Only a file that cannot be read has no place. -/
def Stop.failure (stop : Stop) (place : Option Place) : Failure :=
  match stop with
  | .fault (.unreadable path reason) => ⟨"IOError: " ++ path ++ ": " ++ reason, none⟩
  | .fault .exit => ⟨"InternalError", place⟩
  | .fault cause => ⟨cause.title ++ ": " ++ cause.message, place⟩
  | _ => ⟨"InternalError", place⟩

/-- The effects that were recorded after the first ones. -/
def effectsSince (host : Host σ) (mark : Nat) (session : Session σ) : List Effect :=
  (host.effects session.host).toList.drop mark

/-- Reports a failure to the host and to the caller. -/
def failed (host : Host σ) (mark : Nat) (stop : Stop) (session : Session σ) :
    Report × Session σ :=
  let failure := stop.failure session.place
  let session := { session with host := host.reportError failure.text session.host }
  (⟨.error failure, effectsSince host mark session⟩, session)

/-- Runs something and reports it, with the outputs meanwhile. -/
def reported (host : Host σ) (act : Run σ Value) (session : Session σ) : Report × Session σ :=
  let mark := (host.effects session.host).size
  match act session with
  | .ok value session => (⟨.ok value, effectsSince host mark session⟩, session)
  | .error stop session => failed host mark stop session

/-- Runs a script and reports it. -/
def runScript (host : Host σ) (source : String) : Session σ → Report × Session σ :=
  reported host do
    run host source
    return .nil

/-- Evaluates an expression; leaving it by `finish` gives Nil. -/
def runExpression (host : Host σ) (text : String) : Session σ → Report × Session σ :=
  reported host do
    match ← Run.attempt (eval host text) with
    | .ok value => return value
    | .error (.fault .exit) => return .nil
    | .error stop => throw stop

/-- Runs a file with a script scope of its own. A fault in reading it is reported like one of the
script. -/
def runFile (host : Host σ) (file : Except Stop File) (session : Session σ) :
    Except Stop (Report × Session σ) :=
  match file with
  | .ok file =>
    let previous := session.vars.scripts.active
    let (report, session) := runScript host file.text (session.setScript (some (.name file.path)))
    .ok (report, session.setScript previous)
  | .error (.fault cause) =>
    .ok (failed host (host.effects session.host).size (.fault cause) session)
  | .error stop => .error stop

end Vimlet
