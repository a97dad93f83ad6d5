/-!
# Builtin functions

The names of the functions that every session has, and how many arguments each takes.
-/

namespace Vimlet

/-- The functions on numbers. -/
inductive MathFunction where
  | float2nr | abs | round | ceil | floor | trunc | fmod | exp | log | log10 | pow | sqrt
  | sin | cos | tan | asin | acos | atan | atan2 | sinh | cosh | tanh
  | and | or | xor | invert
deriving DecidableEq, Repr

/-- The functions on texts. -/
inductive TextFunction where
  | char2nr | nr2char | tolower | toupper | strlen | strchars | trim | stridx | repeat
  | str2nr | str2float | split | join | string | jsonEncode | jsonDecode
deriving DecidableEq, Repr

/-- Functions on containers that call no function. -/
inductive ContainerFunction where
  | len | empty | get | insert | add | extend | remove | copy | deepcopy | reverse | uniq | range
  | index | count | max | min | flatten | hasKey | keys | values | items | type | garbagecollect
deriving DecidableEq, Repr

/-- Functions that evaluate, call, or look at the session. -/
inductive ControlFunction where
  | eval | exec | call | function | exists_ | filter | map | sort
  | assertEqual | assertNotEqual | assertTrue | assertFalse
deriving DecidableEq, Repr

/-- A builtin function. -/
inductive Builtin where
  | math (f : MathFunction)
  | text (f : TextFunction)
  | container (f : ContainerFunction)
  | control (f : ControlFunction)
deriving DecidableEq, Repr

/-- How many arguments a function takes. -/
structure Signature where
  required : Nat
  count : Nat
  variadic : Bool := false
deriving DecidableEq, Repr

/-- The function takes as many arguments as are given. -/
def Signature.accepts (signature : Signature) (given : Nat) : Bool :=
  signature.required ≤ given && (given ≤ signature.count || signature.variadic)

namespace Builtin

/-- A function with a fixed number of arguments. -/
def fixed (name : String) (count : Nat) (f : Builtin) : String × Signature × Builtin :=
  (name, ⟨count, count, false⟩, f)

/-- A function whose last arguments may be left out. -/
def optional (name : String) (required count : Nat) (f : Builtin) :
    String × Signature × Builtin :=
  (name, ⟨required, count, false⟩, f)

/-- A function with any number of arguments. -/
def variadic (name : String) (f : Builtin) : String × Signature × Builtin :=
  (name, ⟨0, 0, true⟩, f)

/-- The builtin functions with their names and signatures. -/
def all : List (String × Signature × Builtin) :=
  [variadic "eval" (.control .eval),
   variadic "exec" (.control .exec),
   variadic "execute" (.control .exec),
   fixed "call" 2 (.control .call),
   fixed "function" 1 (.control .function),
   fixed "exists" 1 (.control .exists_),
   fixed "filter" 2 (.control .filter),
   fixed "map" 2 (.control .map),
   optional "sort" 1 2 (.control .sort),
   optional "assert_equal" 2 3 (.control .assertEqual),
   optional "assert_notequal" 2 3 (.control .assertNotEqual),
   optional "assert_true" 1 2 (.control .assertTrue),
   optional "assert_false" 1 2 (.control .assertFalse),
   fixed "type" 1 (.container .type),
   optional "garbagecollect" 0 1 (.container .garbagecollect),
   fixed "len" 1 (.container .len),
   fixed "empty" 1 (.container .empty),
   optional "get" 2 3 (.container .get),
   optional "insert" 2 3 (.container .insert),
   fixed "add" 2 (.container .add),
   optional "extend" 2 3 (.container .extend),
   optional "remove" 2 3 (.container .remove),
   fixed "copy" 1 (.container .copy),
   fixed "deepcopy" 1 (.container .deepcopy),
   fixed "reverse" 1 (.container .reverse),
   fixed "uniq" 1 (.container .uniq),
   optional "range" 1 3 (.container .range),
   optional "index" 2 3 (.container .index),
   fixed "count" 2 (.container .count),
   fixed "max" 1 (.container .max),
   fixed "min" 1 (.container .min),
   optional "flatten" 1 2 (.container .flatten),
   fixed "has_key" 2 (.container .hasKey),
   fixed "keys" 1 (.container .keys),
   fixed "values" 1 (.container .values),
   fixed "items" 1 (.container .items),
   fixed "char2nr" 1 (.text .char2nr),
   fixed "nr2char" 1 (.text .nr2char),
   fixed "tolower" 1 (.text .tolower),
   fixed "toupper" 1 (.text .toupper),
   fixed "strlen" 1 (.text .strlen),
   fixed "strchars" 1 (.text .strchars),
   fixed "trim" 1 (.text .trim),
   optional "stridx" 2 3 (.text .stridx),
   fixed "repeat" 2 (.text .repeat),
   optional "str2nr" 1 2 (.text .str2nr),
   fixed "str2float" 1 (.text .str2float),
   optional "split" 1 3 (.text .split),
   optional "join" 1 2 (.text .join),
   fixed "string" 1 (.text .string),
   fixed "json_encode" 1 (.text .jsonEncode),
   fixed "json_decode" 1 (.text .jsonDecode),
   fixed "float2nr" 1 (.math .float2nr),
   fixed "abs" 1 (.math .abs),
   fixed "round" 1 (.math .round),
   fixed "ceil" 1 (.math .ceil),
   fixed "floor" 1 (.math .floor),
   fixed "trunc" 1 (.math .trunc),
   fixed "fmod" 2 (.math .fmod),
   fixed "exp" 1 (.math .exp),
   fixed "log" 1 (.math .log),
   fixed "log10" 1 (.math .log10),
   fixed "pow" 2 (.math .pow),
   fixed "sqrt" 1 (.math .sqrt),
   fixed "sin" 1 (.math .sin),
   fixed "cos" 1 (.math .cos),
   fixed "tan" 1 (.math .tan),
   fixed "asin" 1 (.math .asin),
   fixed "acos" 1 (.math .acos),
   fixed "atan" 1 (.math .atan),
   fixed "atan2" 2 (.math .atan2),
   fixed "sinh" 1 (.math .sinh),
   fixed "cosh" 1 (.math .cosh),
   fixed "tanh" 1 (.math .tanh),
   fixed "and" 2 (.math .and),
   fixed "or" 2 (.math .or),
   fixed "xor" 2 (.math .xor),
   fixed "invert" 1 (.math .invert)]

end Builtin

end Vimlet
