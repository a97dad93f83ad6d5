import Vimlet.Format
import Vimlet.Interpreter

/-!
# Configuration

What a host sets before it runs scripts: the time limit, options, global variables and the trace.
-/

namespace Vimlet

/-- The settings that a session starts with. -/
structure Config where
  timeout : Float
  options : Table String Document := {}
  globals : Table String Document := {}
  debug : Bool := false

/-- Seconds that a run may take if the environment does not say. -/
def standardTimeout : Float := 5.0

/-- The timeout without a configuration. -/
def defaultTimeout (environment : Option String) : Float :=
  (environment.bind fun text => readFloat? text.toList).getD standardTimeout

namespace Document

/-- The kind of the value that a document stands for. -/
def kind : Document → Kind
  | null => .nil
  | bool _ => .bool
  | integer _ => .integer
  | number _ => .number
  | text _ => .str
  | sequence _ => .list
  | mapping _ => .object

/-- The documents that count as no settings. -/
def isVoid : Document → Bool
  | null => true
  | bool b => !b
  | integer n => n == 0
  | number x => x == 0
  | text word => word.isEmpty
  | sequence items => items.isEmpty
  | mapping entries => entries.isEmpty

/-- The entries of a mapping; absent data has none. -/
def section? (document : Document) : Except Stop (Table String Document) :=
  if document.isVoid then .ok {}
  else match document with
    | .mapping entries => .ok (.ofList entries)
    | document => .error (.fault (.wrongKind .object document.kind))

/-- The number of seconds that a document stands for. -/
def seconds : Document → Except Stop Float
  | bool b => .ok (if b then 1.0 else 0.0)
  | integer n => if (floatOfInt n).isFinite then .ok (floatOfInt n) else .error .internal
  | number x => .ok x
  | text word =>
    match readFloat? word.toList with
    | some x => .ok x
    | none => .error .internal
  | _ => .error .internal

end Document

namespace Config

/-- The configuration that data describes. Keys that are missing leave their defaults. -/
def ofDocument (timeout : Float) (document : Document) : Except Stop Config := do
  let data ← document.section?
  let entry (key : String) : Document := (data.get? key).getD .null
  let timeout ← match entry "timeout" with
    | .null => pure timeout
    | limit => limit.seconds
  let options ← (entry "options").section?
  let globals ← (entry "globals").section?
  return { timeout, options, globals, debug := !(entry "debug").isVoid }

/-- The configuration in a text. -/
def parse (timeout : Float) (text : String) : Except Stop Config := do
  ofDocument timeout (← Format.yaml.read text)

/-- The values of settings. -/
def values (entries : Table String Document) : Mem (Table String Value) := do
  return ⟨← Mem.ofEntries entries.entries⟩

/-- The session that a configuration starts. -/
def start {σ : Type} (config : Config) (host : Table String Value → σ) : Except Stop (Session σ) :=
  let empty : Session Unit := Session.new () config.timeout
  let settings : Mem (Table String Value × Table String Value) := do
    let options ← values config.options
    return (options, ← values config.globals)
  match settings empty.heap with
  | .ok (options, globals) heap =>
    let session := Session.new (host options) config.timeout
    .ok { session with heap, vars.globals := globals, debug := config.debug }
  | .error stop _ => .error stop

end Config

end Vimlet
