import Vimlet.Config
import Vimlet.Recorder
import Vimlet.Runner

/-!
# The command line

Runs a script file, or answers lines one after the other.
-/

namespace Vimlet

namespace CommandLine

/-- What the arguments of the program ask for. -/
structure Request where
  config : Option String
  /-- The path of a script; without one, lines are answered. -/
  script : Option String
deriving DecidableEq, Repr

/-- What is asked for after the option for a configuration. -/
def requestWith (config : Option String) : List String → Request
  | script :: _ => ⟨config, if script.toList.head? == some '-' then none else some script⟩
  | [] => ⟨config, none⟩

/-- What the arguments ask for. -/
def request : List String → Request
  | option :: path :: rest =>
    if option == "-c" || option == "--config" then requestWith (some path) rest
    else requestWith none (option :: path :: rest)
  | arguments => requestWith none arguments

/-- What is written to the two streams. -/
structure Output where
  stdout : String := ""
  stderr : String := ""
deriving DecidableEq, Repr

def Output.append (first second : Output) : Output :=
  ⟨first.stdout ++ second.stdout, first.stderr ++ second.stderr⟩

/-- What is written, and the exit code. -/
structure Ending where
  output : Output
  code : Except Stop Nat

/-- The session that a configuration starts, if it could be read. -/
def start (timeout : Float) (config : Option (Except Stop File)) :
    Except Stop (Session Recorder) := do
  let config ← match config with
    | none => pure { timeout }
    | some file => Config.parse timeout (← file).text
  config.start fun options => { options }

/-- The ending when no session could be started. -/
def Ending.ofStop (output : Output) : Stop → Ending
  | .fault cause => ⟨output.append { stderr := "Error: " ++ cause.message ++ "\n" }, .ok 1⟩
  | stop => ⟨output, .error stop⟩

/-- The messages of scripts among effects, a line each. -/
def printed (effects : List Effect) : String :=
  "".intercalate (effects.filterMap fun effect =>
    if effect.topic = .stdout then some (effect.message ++ "\n") else none)

/-- The trace as it is written. -/
def traced (trace : List String) : String :=
  "".intercalate (trace.reverse.map fun message => "[DBG] " ++ message ++ "\n")

/-- Runs the script in a file. -/
def runScriptFile (session : Session Recorder) (file : Except Stop File) : Ending :=
  match runFile Recorder.host file session with
  | .error stop => ⟨{}, .error stop⟩
  | .ok (report, session) =>
    let output : Output := { stdout := printed report.effects, stderr := traced session.trace }
    match report.outcome with
    | .ok _ => ⟨output, .ok 0⟩
    | .error failure => ⟨output.append { stderr := failure.text ++ "\n" }, .ok 1⟩

/-! ### Answering lines -/

def greeting : String :=
  "vimscript REPL v0.1\n" ++
    "Lines run as script; '=expr' evaluates an expression. Ctrl+D quits.\n"

def prompt : String := ">> "

def farewell : String := "\nExiting.\n"

/-- Answers a line that is an expression or a script. -/
def respond (printer : Printer) (session : Session Recorder) (line : List Char) :
    Output × Printer × Session Recorder :=
  let session := { session with trace := [] }
  let (report, session) := match line with
    | '=' :: expression => runExpression Recorder.host (String.ofList expression) session
    | script => runScript Recorder.host (String.ofList script) session
  let trace := traced session.trace
  match report.outcome with
  | .error failure => ({ stderr := trace ++ failure.text ++ "\n" }, printer, session)
  | .ok value =>
    let (shown, printer) := match value with
      | .nil => ("", printer)
      | value =>
        let (text, printer) := printer.format session.heap value
        (text ++ "\n", printer)
    ({ stdout := printed report.effects ++ shown, stderr := trace }, printer, session)

/-- A line of an interactive run. -/
inductive Line where
  | nothing
  | quit
  | input (text : List Char)

/-- What a line asks for. -/
def Line.ofText (text : String) : Line :=
  match Text.trim text.toList with
  | [] => .nothing
  | line => if line == "quit".toList then .quit else .input line

/-- Answers lines until one of them ends the program. -/
def answerLines (printer : Printer) (session : Session Recorder) : List String → Output
  | [] => { stdout := prompt ++ farewell }
  | text :: rest =>
    match Line.ofText text with
    | .quit => { stdout := prompt }
    | .nothing => Output.append { stdout := prompt } (answerLines printer session rest)
    | .input line =>
      let (output, printer, session) := respond printer session line
      (Output.append { stdout := prompt } output).append (answerLines printer session rest)

/-- The lines of an input. The last one need not end in a line break. -/
def inputLines (input : String) : List String :=
  let lines := (Text.split ['\n'] input.toList).map String.ofList
  if lines.getLast? == some "" then lines.dropLast else lines

/-- Runs the program. -/
def run (tree : FileTree) (timeout : Float) (arguments : List String) (input : String) : Ending :=
  let request := request arguments
  let config := request.config.map tree.open?
  match request.script with
  | some path =>
    match start timeout config with
    | .ok session => runScriptFile session (tree.open? path)
    | .error stop => .ofStop {} stop
  | none =>
    let greeted : Output := { stdout := greeting }
    match start timeout config with
    | .ok session => ⟨greeted.append (answerLines {} session (inputLines input)), .ok 0⟩
    | .error stop => .ofStop greeted stop

end CommandLine

end Vimlet
