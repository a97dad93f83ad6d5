import Vimlet.Number.Format
import Vimlet.Text.Quoted
import Vimlet.Value.Basic

/-!
# Faults

Why an operation failed. A fault is a cause; its wording is `Fault.message` and the name of its
class is `Fault.title`.
-/

namespace Vimlet

/-- What a script should have contained at some place. -/
inductive Expectation where
  | endOfPattern (rest : String)
  | nameInObjectPattern
  | closing (bracket : Char)
  | variableName
  | targetName (text : String)
  | values (wanted got : Nat)
  | equalsSign
  | functionHeader
  | parameterName (text : String)
  | loopHeader
  | plainLet
  | indexInRange (position : Int)
  | key (name : String)
  | stride
  | format (name : String)
  | json (problem : String) (position : Nat)
  | yaml
deriving DecidableEq, Repr

namespace Expectation

def message : Expectation → String
  | endOfPattern rest => "end of pattern before " ++ Text.quoted rest
  | nameInObjectPattern => "name in object pattern"
  | closing bracket => bracket.toString
  | variableName => "variable name"
  | targetName text => "variable name, got " ++ Text.quoted text
  | values wanted got => Nat.repr wanted ++ " values, got " ++ Nat.repr got
  | equalsSign => "="
  | functionHeader => "Name(args)"
  | parameterName text => "parameter name, got " ++ Text.quoted text
  | loopHeader => "for \x7bvar\x7d in \x7bexpr\x7d"
  | plainLet => "let without range or bang"
  | indexInRange position => "list index in range, got " ++ integerText position
  | key name => "key " ++ Text.quoted name
  | stride => "non-zero stride"
  | format name => "format json or yaml, got " ++ Text.quoted name
  | json problem position => "valid JSON (" ++ problem ++ " at " ++ Nat.repr position ++ ")"
  | yaml => "valid YAML"

end Expectation

/-- The kinds of blocks. -/
inductive Block where
  | script
  | function
  | conditional
  | whileLoop
  | forLoop
deriving DecidableEq, Repr

/-- What a block is called in messages. -/
def Block.word : Block → String
  | script => "script"
  | function => "function"
  | conditional => "if"
  | whileLoop => "while"
  | forLoop => "for"

/-- The scopes of names. -/
inductive Scope where
  | global
  | buffer
  | window
  | script
  | «local»
  | builtin
deriving DecidableEq, Repr

/-- What a scope is called in messages. -/
def Scope.word : Scope → String
  | global => "global"
  | buffer => "buffer"
  | window => "window"
  | script => "script"
  | «local» => "local"
  | builtin => "builtin"

/-- The faults of scripts. -/
inductive Fault where
  | unreadable (path reason : String)
  | unexpectedKeyword (keyword : String)
  | unexpectedEnd (block : Block)
  | expected (what : Expectation)
  | callDepthExceeded (limit : Int)
  | namespaceNotDefined (scope : Scope)
  | unknownNamespace (name : String)
  | readOnlyNamespace (name : String)
  | unterminatedString (text : String)
  | unexpectedSymbol (symbol : Char)
  | invalidExpression (text : String)
  | wrongKind (wanted got : Kind)
  | notACharacter (code : Int)
  | notABase (base : Int)
  | notABool (got : Kind)
  | divisionByZero
  | cyclicReference (kind : Kind)
  | variableUndefined (name : String)
  | functionUndefined (name : String)
  | commandUndefined (name : String)
  | wrongArgCount (wanted got : Nat)
  | timeOut (seconds : Float)
  | exit
deriving Repr

namespace Fault

/-- The name of the class of a fault. -/
def title : Fault → String
  | unreadable .. => "VimIOError"
  | unexpectedKeyword _ => "UnexpectedKeyword"
  | unexpectedEnd _ => "UnexpectedEof"
  | expected _ => "Expected"
  | callDepthExceeded _ => "CallDepthExceeded"
  | namespaceNotDefined _ => "NamespaceNotDefined"
  | unknownNamespace _ => "UnknownNamespace"
  | readOnlyNamespace _ => "ReadOnlyNamespace"
  | unterminatedString _ => "UnterminatedString"
  | unexpectedSymbol _ => "UnexpectedSymbol"
  | invalidExpression _ => "InvalidExpression"
  | wrongKind .. | notACharacter _ | notABase _ => "ExpectedType"
  | notABool _ => "NotABool"
  | divisionByZero => "DivisionByZero"
  | cyclicReference _ => "CyclicReference"
  | variableUndefined _ => "VariableUndefined"
  | functionUndefined _ => "FunctionUndefined"
  | commandUndefined _ => "CommandUndefined"
  | wrongArgCount .. => "WrongArgCount"
  | timeOut _ => "TimeOut"
  | exit => "Exit"

def message : Fault → String
  | unreadable path reason => path ++ ": " ++ reason
  | unexpectedKeyword keyword => keyword
  | unexpectedEnd block => "missing end of " ++ block.word
  | expected what => what.message
  | callDepthExceeded limit =>
    if limit = 0 then "function call depth exceeded"
    else "function call depth exceeded " ++ integerText limit
  | namespaceNotDefined scope => scope.word
  | unknownNamespace name => name
  | readOnlyNamespace name => name
  | unterminatedString text => text
  | unexpectedSymbol symbol => symbol.toString
  | invalidExpression text => text
  | wrongKind wanted got => wanted.name ++ " (got " ++ got.name ++ ")"
  | notACharacter code => "character code (got " ++ integerText code ++ ")"
  | notABase base => "base 2, 8, 10 or 16 (got " ++ integerText base ++ ")"
  | notABool got => got.name
  | divisionByZero => "division by zero"
  | cyclicReference kind => "cannot insert a " ++ kind.name ++ " into itself"
  | variableUndefined name => name
  | functionUndefined name => name
  | commandUndefined name => name
  | wrongArgCount wanted got =>
    "expected " ++ Nat.repr wanted ++ " arguments, got " ++ Nat.repr got
  | timeOut seconds => "script exceeded " ++ NumberFormat.general.text seconds ++ "s"
  | exit => "exit"

/-- The faults that `silent!` does not swallow. -/
def isControl : Fault → Bool
  | timeOut _ | exit => true
  | _ => false

end Fault

/-- Why a computation ended without a result. -/
inductive Stop where
  | fault (cause : Fault)
  /-- A `return` on its way to the innermost function call. -/
  | returning (value : Value)
  /-- A `break` on its way to the innermost loop. -/
  | breaking
  /-- A `continue` on its way to the innermost loop. -/
  | continuing
  /-- An operation outside the limits of the machine, which scripts cannot catch. -/
  | internal
  /-- Nesting without bound, which becomes a fault where the run was started. -/
  | tooDeep
deriving Repr

end Vimlet
