import Vimlet.Builtin.Control
import Vimlet.Expr.Eval
import Vimlet.Statement.Walk

/-!
# The interpreter

`Engine.ofDepth` ties evaluation, calls and statements together: each of them uses an engine that
allows one level of nesting less. `run`, `eval` and `callFunction` are what a host asks for.
-/

namespace Vimlet

variable {σ : Type}

/-- The value that a function body returns. -/
def returned (body : Run σ Unit) : Run σ Value := do
  match ← Run.attempt body with
  | .ok _ => return .nil
  | .error (.returning value) => return value
  | .error stop => throw stop

/-- The session as the body of a function begins. -/
def Session.enterFunction (session : Session σ) : Session σ :=
  { session.enter true with loopDepth := 0, functionDepth := session.functionDepth + 1 }

/-- The session as the body of a function ends. -/
def Session.leaveFunction (loopDepth : Nat) (session : Session σ) : Session σ :=
  { session.leave with loopDepth, functionDepth := session.functionDepth - 1 }

/-- Calls a user function in a frame of its own. -/
def callUser (engine : Engine σ) (function : UserFunction) (args : List Value) : Run σ Value := do
  let session ← get
  if args.length ≠ function.params.length then
    Run.fault (.wrongArgCount function.params.length args.length)
  else if session.maxFunctionDepth ≤ session.functionDepth then
    Run.fault (.callDepthExceeded session.maxFunctionDepth)
  else
    Run.note ("CALL " ++ function.name ++ " argc " ++ Nat.repr args.length)
    modify Session.enterFunction
    Run.ensure (Session.leaveFunction session.loopDepth) (returned do
      bindAll Run.declare (function.params.zip args)
      engine.run function.body)

/-- Refuses a wrong number of arguments. -/
def checkArguments (signature : Signature) (args : List Value) : Run σ Unit :=
  if signature.accepts args.length then return
  else Run.fault (.wrongArgCount signature.count args.length)

/-- Calls a function of a name, or the one that a variable of that name refers to. It is given how
builtin functions and user functions are called. -/
def callWith (host : Host σ) (engine : Engine σ) (builtin : Builtin → List Value → Run σ Value)
    (user : UserFunction → List Value → Run σ Value) (name : String) (args : List Value) :
    Run σ Value := do
  let session ← get
  match ← Run.ofExcept (session.functions.find? name) with
  | some (.builtin _ signature f) =>
    checkArguments signature args
    builtin f args
  | some (.host _ signature id) =>
    signature.forM (checkArguments · args)
    host.function id args
  | some (.user function) => user function args
  | none =>
    match ← Run.ofExcept (session.vars.find? name) with
    | some (.function ref) => engine.callRef ref args
    | _ => Run.fault (.functionUndefined name)

/-- Calls a function by name with an engine. -/
def callByName (host : Host σ) (engine : Engine σ) : String → List Value → Run σ Value :=
  callWith host engine (Builtin.apply engine) (callUser engine)

/-- The engine that allows no nesting. -/
def Engine.exhausted : Engine σ where
  eval _ := throw .tooDeep
  call _ _ := throw .tooDeep
  run _ := throw .tooDeep

/-- The engine that allows a number of levels of nesting. -/
def Engine.ofDepth (host : Host σ) : Nat → Engine σ
  | 0 => exhausted
  | depth + 1 =>
    let inner := ofDepth host depth
    { eval := evaluate host inner
      call := callByName host inner
      run := runLines host inner }

/-- Levels of nesting of evaluations, calls and runs. -/
def maxNesting : Nat := 1200

/-- The engine that requests start with. -/
def engine (host : Host σ) : Engine σ := Engine.ofDepth host maxNesting

/-- Runs a script; leaving it by `finish` counts as success. -/
def run (host : Host σ) (script : String) : Run σ Unit :=
  Run.enclosed do
    match ← Run.attempt ((engine host).run (scriptLines script)) with
    | .ok _ => return
    | .error (.fault .exit) => Run.note "EXIT"
    | .error stop => throw stop

/-- Evaluates an expression. -/
def eval (host : Host σ) (text : String) : Run σ Value :=
  Run.enclosed ((engine host).eval text)

/-- Calls a function by its name. -/
def callFunction (host : Host σ) (name : String) (args : List Value) : Run σ Value :=
  Run.enclosed ((engine host).call name args)

/-! ### New sessions -/

/-- The builtin variables that hold no container. -/
def builtinVariables : List (String × Value) :=
  [("true", .bool true), ("false", .bool false), ("null", .nil), ("none", .nil),
   ("version", .integer 900), ("t_number", .integer Kind.integer.code),
   ("t_string", .integer Kind.str.code), ("t_func", .integer Kind.function.code),
   ("t_list", .integer Kind.list.code), ("t_dict", .integer Kind.object.code),
   ("t_float", .integer Kind.number.code), ("t_bool", .integer Kind.bool.code),
   ("t_none", .integer Kind.nil.code)]

/-- The commands that every session has. -/
def builtinCommands : List (String × Command) :=
  [("call", .call), ("echo", .echo), ("unlet", .unlet)]

namespace Session

/-- Adds a function to the Builtin scope. -/
def addFunction (session : Session σ) (name : String) (function : Callable) : Session σ :=
  { session with functions := session.functions.insertBuiltin name function }

/-- Adds a command. -/
def addCommand (session : Session σ) (name : String) (command : Command) : Session σ :=
  { session with commands := session.commands.insert name command }

/-- The functions that every session has. -/
def builtinFunctions : Table String Callable :=
  .ofList (Builtin.all.map fun (name, signature, f) => (name, .builtin name signature f))

/-- A session with the builtin functions, variables and commands. -/
def new (host : σ) (timeout : Float) : Session σ :=
  { host, timeout
    heap := { lists := #[{}] }
    vars := { builtins := .ofList (builtinVariables ++ [("errors", .list 0)]) }
    functions := { builtins := builtinFunctions }
    commands := .ofList builtinCommands }

end Session

end Vimlet
