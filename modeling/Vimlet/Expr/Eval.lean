import Vimlet.Expr.Lexer
import Vimlet.Expr.Reduce

/-!
# Evaluation of expressions

The tokens of an expression are read, names before a parenthesis are marked as calls, all other
names are replaced by their values, and the rest is reduced.
-/

namespace Vimlet

variable {σ : Type}

/-- Marks the names before an opening parenthesis as calls. -/
def markCalls : List Token → List Token
  | .var name :: .op .leftParen :: rest => .call name :: markCalls (.op .leftParen :: rest)
  | token :: rest => token :: markCalls rest
  | [] => []

/-- Replaces names by their values, from left to right. A name after an ampersand is an option. -/
def substitute (host : Host σ) : List Token → Run σ (List Token)
  | .op .ampersand :: .var name :: rest => do
    let value ← Run.ofExcept (host.option name (← get).host)
    return .val value :: (← substitute host rest)
  | .var name :: rest => do
    let value ← Run.lookup name
    return .val value :: (← substitute host rest)
  | token :: rest => return token :: (← substitute host rest)
  | [] => return []

/-- Evaluates an expression, with calls made by the engine. -/
def evaluate (host : Host σ) (engine : Engine σ) (text : String) : Run σ Value := do
  match lex text with
  | .error stop => throw stop
  | .ok [] => Run.fault (.invalidExpression text)
  | .ok tokens => Reduce.reduce engine text (← substitute host (markCalls tokens))

end Vimlet
