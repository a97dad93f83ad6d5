import Vimlet.Json.Reader
import Vimlet.Json.Writer
import Vimlet.Yaml.Reader
import Vimlet.Yaml.Writer

/-!
# Formats of data

The formats in which data is written and read.
-/

namespace Vimlet

/-- The formats of documents. -/
inductive Format where
  | json
  | yaml
deriving DecidableEq, Repr

namespace Format

/-- The format with a name. -/
def ofName (name : String) : Except Fault Format :=
  match name with
  | "json" => .ok .json
  | "yaml" => .ok .yaml
  | name => .error (.expected (.format name))

/-- Writes data. Only JSON has a layout for people. -/
def write (format : Format) (pretty : Bool) (document : Document) : String :=
  match format with
  | .json => Json.write (if pretty then .pretty else .compact) document
  | .yaml => Yaml.write document

/-- The document in a text. -/
def read (format : Format) (text : String) : Except Stop Document :=
  match format with
  | .json =>
    match Json.read text with
    | .ok document => .ok document
    | .error cause => .error (.fault cause)
  | .yaml => Yaml.read text

end Format

/-- Writes a value in the format with a name. A container inside itself is refused first. -/
def serialize (heap : Heap) (value : Value) (format : String) (pretty : Bool) :
    Except Fault String := do
  let document ← heap.document value
  let format ← Format.ofName format
  return format.write pretty document

/-- Reads a value in the format with a name. -/
def deserialize (text format : String) : Mem Value := do
  let format ← Mem.ofExcept (Format.ofName format)
  match format.read text with
  | .ok document => Mem.ofDocument document
  | .error stop => throw stop

end Vimlet
