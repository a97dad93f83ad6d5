import Vimlet.Line.Source
import Vimlet.Session.Entry
import Vimlet.Statement.Header
import Vimlet.Value.Arithmetic
import Vimlet.Value.Container

/-!
# Simple statements

Statements that open no block: assignments, `silent` and `unsilent`, `execute`, the statements that
leave a function, a loop or the script, and commands.
-/

namespace Vimlet

variable {σ : Type}

/-- Binds names, one after the other. -/
def bindAll (bind : String → Value → Run σ Unit) : List (String × Value) → Run σ Unit
  | [] => return
  | (name, value) :: rest => do
    bind name value
    bindAll bind rest

/-- Binds the names of a pattern to the parts of a value; those bound before it turns out not to fit
stay. -/
def bindPattern (bind : String → Value → Run σ Unit) (pattern : Pattern) (value : Value) :
    Run σ Unit := do
  let (bound, mismatch) := pattern.bindings (← get).heap value
  bindAll bind bound
  match mismatch with
  | some cause => Run.fault cause
  | none => return

/-! ### Assignments -/

/-- The value of the target of a compound assignment. -/
def readTarget (engine : Engine σ) (target : String) : Run σ Value := do
  match ItemTarget.parse? target with
  | some ⟨container, key⟩ =>
    let base ← Run.lookup container
    let key ← engine.eval key
    Run.onHeap (Mem.index base key)
  | none => Run.lookup target

/-- Assigns a value to a pattern, to an item of a container or to a variable. -/
def assignTarget (engine : Engine σ) (target : String) (value : Value) : Run σ Unit := do
  if target.toList.head? == some '[' || target.toList.head? == some '\x7b' then
    bindPattern Run.assign (← Run.ofExcept (Pattern.parse target)) value
  else match ItemTarget.parse? target with
    | some ⟨container, key⟩ =>
      let base ← Run.lookup container
      let key ← engine.eval key
      Run.onHeap (Mem.setItem base key value)
    | none =>
      if Pattern.isName target.toList then Run.assign target value
      else Run.fault (.expected (.targetName target))

/-- Applies the operation of an assignment. -/
def applyCompound (operator : Compound) (a b : Value) : Run σ Value := do
  match operator with
  | .add => Run.ofExcept (a.add b)
  | .sub => Run.ofExcept (a.sub b)
  | .mul => Run.ofExcept (a.mul b)
  | .div => Run.ofExcept (a.div b)
  | .concat =>
    let heap := (← get).heap
    return .str (heap.text a ++ heap.text b)

/-- Executes a `let` statement. -/
def executeLet (engine : Engine σ) (line : Line) : Run σ Unit := do
  if line.range ≠ .current || line.bang then Run.fault (.expected .plainLet)
  else
    let assignment ← Run.ofExcept (Assignment.split line.params)
    let value ← engine.eval assignment.expression
    let value ← match assignment.operator with
      | some operator => do applyCompound operator (← readTarget engine assignment.target) value
      | none => pure value
    assignTarget engine assignment.target value

/-! ### Nested statements -/

/-- Runs the statement that the parameters of a statement are. -/
def runNested (engine : Engine σ) (line : Line) : Run σ Unit :=
  match Line.parse? line.params.toList line.number with
  | some nested => engine.run [nested]
  | none => return

/-- Sets how many `silent` statements are active, and tells the host. -/
def Session.setSilence (host : Host σ) (silence : Nat) (session : Session σ) : Session σ :=
  { session with silence, host := host.setSilent (0 < silence) session.host }

/-- Lets the faults pass that a `silent` statement does not swallow. -/
def swallow (bang : Bool) (act : Run σ Unit) : Run σ Unit := do
  match ← Run.attempt act with
  | .ok _ => return
  | .error (.fault cause) =>
    if bang && !cause.isControl then
      Run.note ("SILENT! swallowed " ++ cause.title ++ " " ++ cause.message)
    else throw (.fault cause)
  | .error stop => throw stop

/-- Executes a `silent` statement. -/
def executeSilent (host : Host σ) (engine : Engine σ) (line : Line) : Run σ Unit := do
  modify fun session => session.setSilence host (session.silence + 1)
  Run.ensure (fun session => session.setSilence host (session.silence - 1))
    (swallow line.bang (runNested engine line))

/-- Executes an `unsilent` statement. -/
def executeUnsilent (host : Host σ) (engine : Engine σ) (line : Line) : Run σ Unit := do
  let saved := (← get).silence
  modify fun session => session.setSilence host 0
  Run.ensure (·.setSilence host saved) (runNested engine line)

/-- The script text of a value: the text of its elements on a line each, or its text. -/
def Heap.scriptText (heap : Heap) (value : Value) : String :=
  match value with
  | .list cell => "\n".intercalate ((heap.list cell).map heap.text)
  | value => heap.text value

/-- Runs a text, or a List of lines, in the current script. -/
def executeText (engine : Engine σ) (value : Value) : Run σ Unit := do
  let text := (← get).heap.scriptText value
  Run.enclosed (engine.run (scriptLines text))

/-! ### Commands -/

/-- Removes variables, one after the other. -/
def unletAll (bang : Bool) : List String → Run σ Unit
  | [] => return
  | name :: rest => do
    if !(← Run.unlet name) && !bang then Run.fault (.variableUndefined name)
    unletAll bang rest

/-- Executes a command. -/
def runCommand (host : Host σ) (engine : Engine σ) (command : Command) (line : Line) :
    Run σ Unit := do
  match command with
  | .call => discard (Run.enclosed (engine.eval line.params))
  | .echo =>
    if Text.allBlank line.params.toList then Run.onHost (host.echo "")
    else
      let value ← Run.enclosed (engine.eval line.params)
      let text := (← get).heap.text value
      Run.onHost (host.echo text)
  | .unlet =>
    match Text.words line.params.toList with
    | [] => Run.fault (.expected .variableName)
    | names => unletAll line.bang (names.map String.ofList)
  | .host id => host.command id line.range line.bang line.params

/-- Executes a simple statement, given its keyword in full. -/
def executeSimple (host : Host σ) (engine : Engine σ) (keyword : String) (line : Line) :
    Run σ Unit := do
  Run.setLine line
  Run.note ("LINE " ++ Nat.repr line.number ++ " " ++ line.text)
  match keyword with
  | "let" => executeLet engine line
  | "silent" => executeSilent host engine line
  | "unsilent" => executeUnsilent host engine line
  | "execute" => executeText engine (← engine.eval line.params)
  | "finish" | "exit" => Run.fault .exit
  | "return" =>
    if (← get).functionDepth == 0 then Run.fault (.unexpectedKeyword "return")
    else if Text.allBlank line.params.toList then throw (.returning .nil)
    else throw (.returning (← engine.eval line.params))
  | "break" =>
    if (← get).loopDepth == 0 then Run.fault (.unexpectedKeyword "break") else throw .breaking
  | "continue" =>
    if (← get).loopDepth == 0 then Run.fault (.unexpectedKeyword "continue")
    else throw .continuing
  | _ =>
    match (← get).commands.get? line.command with
    | some command => runCommand host engine command line
    | none => Run.fault (.commandUndefined line.command)

end Vimlet
