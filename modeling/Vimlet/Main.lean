import Vimlet.CommandLine

/-!
# The program

Reads arguments, files and lines, and writes what `CommandLine` answers.
-/

open Vimlet Vimlet.CommandLine

/-- Reads a file of the system. -/
def readSystemFile (path : String) : IO (Except Stop File) := do
  if path.toList.contains '\x00' then return .error .internal
  let unreadable (reason : String) : Except Stop File :=
    .error (.fault (.unreadable (Path.ofText path).text reason))
  try
    let bytes ← IO.FS.readBinFile path
    let absolute ← IO.FS.realPath path
    return File.ofBytes absolute.toString bytes
  catch
    | .noFileOrDirectory .. => return unreadable Obstacle.missing.text
    | .inappropriateType .. => return unreadable Obstacle.directory.text
    | error => return unreadable error.toString

/-- Writes to the two streams. -/
def writeOutput (output : Output) : IO Unit := do
  IO.print output.stdout
  IO.eprint output.stderr
  (← IO.getStdout).flush

partial def answerInput (printer : Printer) (session : Session Recorder) : IO Unit := do
  writeOutput { stdout := prompt }
  let text ← (← IO.getStdin).getLine
  if text.isEmpty then writeOutput { stdout := farewell }
  else match CommandLine.Line.ofText text with
    | .quit => return
    | .nothing => answerInput printer session
    | .input line =>
      let (output, printer, session) := respond printer session line
      writeOutput output
      answerInput printer session

/-- Writes what is left and gives the exit code. -/
def finish (ending : Ending) : IO UInt32 := do
  writeOutput ending.output
  match ending.code with
  | .ok code => return code.toUInt32
  | .error _ =>
    IO.eprintln "InternalError"
    return 1

/-- Runs the program on the system. -/
def main (arguments : List String) : IO UInt32 := do
  let request := request arguments
  let timeout := defaultTimeout (← IO.getEnv "VIMSCRIPT_TIMEOUT")
  if request.script.isNone then writeOutput { stdout := greeting }
  let config ← request.config.mapM readSystemFile
  let tracing := (← IO.getEnv "VIMSCRIPT_DEBUG").any (!·.isEmpty)
  let started := (start timeout config).map fun session =>
    { session with debug := session.debug || tracing }
  match started, request.script with
  | .ok session, some path => finish (runScriptFile session (← readSystemFile path))
  | .ok session, none =>
    answerInput {} session
    return 0
  | .error stop, _ => finish (.ofStop {} stop)
