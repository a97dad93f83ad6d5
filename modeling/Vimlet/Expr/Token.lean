import Vimlet.Value.Basic

/-!
# Tokens

An expression is a list of tokens: operators, names, call sites and values.
-/

namespace Vimlet

/-- The operators and the other signs of expressions. -/
inductive Op where
  | plus
  | minus
  | times
  | divide
  | modulo
  | dot
  | bang
  | less
  | greater
  | assign
  | comma
  | leftBracket
  | rightBracket
  | leftBrace
  | rightBrace
  | leftParen
  | rightParen
  | colon
  | ampersand
  | equal
  | notEqual
  | lessEqual
  | greaterEqual
deriving DecidableEq, Repr

namespace Op

/-- The sign as it is written. -/
def text : Op → String
  | plus => "+"
  | minus => "-"
  | times => "*"
  | divide => "/"
  | modulo => "%"
  | dot => "."
  | bang => "!"
  | less => "<"
  | greater => ">"
  | assign => "="
  | comma => ","
  | leftBracket => "["
  | rightBracket => "]"
  | leftBrace => "\x7b"
  | rightBrace => "\x7d"
  | leftParen => "("
  | rightParen => ")"
  | colon => ":"
  | ampersand => "&"
  | equal => "=="
  | notEqual => "!="
  | lessEqual => "<="
  | greaterEqual => ">="

/-- The sign that is one character. -/
def ofChar? : Char → Option Op
  | '+' => some plus
  | '-' => some minus
  | '*' => some times
  | '/' => some divide
  | '%' => some modulo
  | '.' => some dot
  | '!' => some bang
  | '<' => some less
  | '>' => some greater
  | '=' => some assign
  | ',' => some comma
  | '[' => some leftBracket
  | ']' => some rightBracket
  | '\x7b' => some leftBrace
  | '\x7d' => some rightBrace
  | '(' => some leftParen
  | ')' => some rightParen
  | ':' => some colon
  | '&' => some ampersand
  | _ => none

/-- The operator of two characters; two dots are another way to write one. -/
def ofPair? : Char → Char → Option Op
  | '=', '=' => some equal
  | '!', '=' => some notEqual
  | '<', '=' => some lessEqual
  | '>', '=' => some greaterEqual
  | '.', '.' => some dot
  | _, _ => none

/-- The precedence of a binary operator; a higher one binds tighter. -/
def precedence? : Op → Option Nat
  | times | divide | modulo => some 4
  | plus | minus => some 3
  | dot => some 2
  | less | lessEqual | greater | greaterEqual | equal | notEqual => some 1
  | _ => none

/-- The operators that may stand before an operand. -/
def isUnary : Op → Bool
  | minus | bang | plus => true
  | _ => false

/-- The closing brackets. -/
def closes : Op → Bool
  | rightParen | rightBracket | rightBrace => true
  | _ => false

/-- A bracket that continues the operand before it. -/
def continues : Op → Bool
  | leftBracket | leftParen => true
  | _ => false

end Op

/-- A token of an expression. -/
inductive Token where
  | op (symbol : Op)
  | var (name : String)
  | call (name : String)
  | val (value : Value)
deriving Repr

namespace Token

/-- The sign of a token. -/
def op? : Token → Option Op
  | .op symbol => some symbol
  | _ => none

def isOp (token : Token) (symbol : Op) : Bool := token.op? == some symbol

/-- The value of a token. -/
def value? : Token → Option Value
  | val value => some value
  | _ => none

end Token

end Vimlet
