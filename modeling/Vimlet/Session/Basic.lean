import Vimlet.Builtin.Basic
import Vimlet.Line.Basic
import Vimlet.Namespace
import Vimlet.Value.Coerce

/-!
# Sessions

A session is the state of one interpreter: heap, namespaces, registered commands, counters and the
state of the host. `Run` is a computation in a session. When it stops without a result, what it did
before stays done.
-/

namespace Vimlet

/-- A function that a script has defined. -/
structure UserFunction where
  name : String
  params : List String
  /-- The lines between the header and the end of the function. -/
  body : List Line
deriving Repr

/-- An entry of the function namespace. A host function is known by a number. -/
inductive Callable where
  | builtin (name : String) (signature : Signature) (f : Builtin)
  | host (name : String) (signature : Option Signature) (id : Nat)
  | user (f : UserFunction)
deriving Repr

/-- The text that shows what kind of function it is. A host function without a signature has none. -/
def Callable.description? : Callable → Option String
  | builtin name signature _ | host name (some signature) _ =>
    some ("<PyFunction " ++ name ++ "/" ++ Nat.repr signature.count ++ ">")
  | host _ none _ => none
  | user f =>
    some ("<VimFunction " ++ f.name ++ "(" ++ ", ".intercalate f.params ++ ") lines=" ++
      Nat.repr f.body.length ++ ">")

/-- An entry of the command table. A host command is known by a number. -/
inductive Command where
  | call
  | echo
  | unlet
  | host (id : Nat)
deriving DecidableEq, Repr

/-- Where an output goes. -/
inductive Topic where
  | stdout
  | stderr
  | other (name : String)
deriving DecidableEq, Repr

/-- An output of the host. -/
structure Effect where
  topic : Topic
  message : String
deriving DecidableEq, Repr

/-- The state of an interpreter and of its host. -/
structure Session (σ : Type) where
  host : σ
  heap : Heap := {}
  vars : Namespace Value := {}
  functions : Namespace Callable := {}
  commands : Table String Command := {}
  timeout : Float := 5.0
  /-- How many user functions may be active at once. -/
  maxFunctionDepth : Int := 100
  /-- Statements that may still be executed before the run times out. -/
  patience : Nat := 0
  /-- How many `silent` statements are active since the innermost `unsilent`. -/
  silence : Nat := 0
  currentLine : Option Line := none
  /-- How many runs are active, one inside the other. -/
  runs : Nat := 0
  functionDepth : Nat := 0
  /-- How many loops are active in the innermost user function. -/
  loopDepth : Nat := 0
  debug : Bool := false
  trace : List String := []

/-- Computations in a session, which may stop. -/
abbrev Run (σ : Type) := EStateM Stop (Session σ)

/-- What a host does for scripts. -/
structure Host (σ : Type) where
  setSilent : Bool → σ → σ
  echo : String → σ → σ
  reportError : String → σ → σ
  option : String → σ → Except Fault Value
  /-- The outputs that were recorded, if the host records any. -/
  effects : σ → Array Effect
  command : Nat → LineRange → Bool → String → Run σ Unit
  function : Nat → List Value → Run σ Value

/-- How to evaluate, call and run from inside a computation. -/
structure Engine (σ : Type) where
  eval : String → Run σ Value
  call : String → List Value → Run σ Value
  run : List Line → Run σ Unit

namespace Run

variable {σ α : Type}

/-- Stops with a fault. -/
def fault (cause : Fault) : Run σ α := throw (.fault cause)

/-- Stops with a fault, if there is one. -/
def ofExcept : Except Fault α → Run σ α
  | .ok value => pure value
  | .error cause => fault cause

/-- A computation on the heap of the session. -/
def onHeap (act : Mem α) : Run σ α := fun session =>
  let heap := session.heap
  let session := { session with heap := {} }
  match act heap with
  | .ok value heap => .ok value { session with heap }
  | .error stop heap => .error stop { session with heap }

/-- Changes the state afterwards, whether the computation gives a result or not. -/
def ensure (cleanup : Session σ → Session σ) (act : Run σ α) : Run σ α := fun session =>
  match act session with
  | .ok value session => .ok value (cleanup session)
  | .error stop session => .error stop (cleanup session)

/-- The result of a computation, or why it stopped. -/
def attempt (act : Run σ α) : Run σ (Except Stop α) := fun session =>
  match act session with
  | .ok value session => .ok (.ok value) session
  | .error stop session => .ok (.error stop) session

/-- A change of the host. -/
def onHost (change : σ → σ) : Run σ Unit :=
  modify fun session => { session with host := change session.host }

/-- Adds a message to the trace, if there is one. -/
def note (message : String) : Run σ Unit :=
  modify fun session =>
    if session.debug then { session with trace := message :: session.trace } else session

/-- Uses up patience before a statement is executed. -/
def checkPatience : Run σ Unit := do
  let session ← get
  match session.patience with
  | 0 => fault (.timeOut session.timeout)
  | patience + 1 => set { session with patience }

/-- Makes a statement the one that errors are attributed to. -/
def setLine (line : Line) : Run σ Unit :=
  modify fun session => { session with currentLine := some line }

/-- The value of a variable. -/
def lookup (name : String) : Run σ Value := do
  match ← ofExcept ((← get).vars.find? name) with
  | some value => return value
  | none => fault (.variableUndefined name)

/-- Binds a variable. -/
def assign (name : String) (value : Value) : Run σ Unit := do
  let vars ← ofExcept ((← get).vars.insert name value)
  modify fun session => { session with vars }

/-- Binds a variable in the innermost frame, if it is Local. -/
def declare (name : String) (value : Value) : Run σ Unit := do
  let vars ← ofExcept ((← get).vars.declare name value)
  modify fun session => { session with vars }

/-- Removes a variable; the answer tells whether it was bound. -/
def unlet (name : String) : Run σ Bool := do
  match ← ofExcept ((← get).vars.remove? name) with
  | some vars =>
    modify fun session => { session with vars }
    return true
  | none => return false

end Run

namespace Session

variable {σ : Type}

def setBuffer (session : Session σ) (id : Option ScopeId) : Session σ :=
  { session with
    vars := session.vars.setBuffer id
    functions := session.functions.setBuffer id }

def setWindow (session : Session σ) (id : Option ScopeId) : Session σ :=
  { session with
    vars := session.vars.setWindow id
    functions := session.functions.setWindow id }

/-- Makes a script the active one. -/
def setScript (session : Session σ) (id : Option ScopeId) : Session σ :=
  { session with
    vars := session.vars.setScript id
    functions := session.functions.setScript id }

/-- Pushes a frame for variables and functions. -/
def enter (session : Session σ) (barrier : Bool) : Session σ :=
  { session with
    vars := session.vars.enter barrier
    functions := session.functions.enter barrier }

/-- Pops a frame from both namespaces, if there is one. -/
def leave (session : Session σ) : Session σ :=
  { session with
    vars := session.vars.leave?.getD session.vars
    functions := session.functions.leave?.getD session.functions }

/-- A reference leads to a function. -/
def functionExists (session : Session σ) (ref : FuncRef) : Bool :=
  let functions := match ref.script with
    | some id => session.functions.setScript (some id)
    | none => session.functions
  match functions.find? ref.name with
  | .ok found => found.isSome
  | .error _ => false

/-- The truth of a value. -/
def truth (session : Session σ) (value : Value) : Bool :=
  session.heap.truthOf session.functionExists value

end Session

namespace Engine

variable {σ : Type}

/-- Calls the function of a reference, in the script that the reference remembers. -/
def callRef (engine : Engine σ) (ref : FuncRef) (args : List Value) : Run σ Value :=
  match ref.script with
  | none => engine.call ref.name args
  | some id => fun session =>
    let previous := session.functions.scripts.active
    Run.ensure (·.setScript previous) (engine.call ref.name args) (session.setScript (some id))

end Engine

end Vimlet
