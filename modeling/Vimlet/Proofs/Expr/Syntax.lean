import Vimlet.Expr.Token

/-!
# Syntax trees of expressions

The grammar of expressions as a family of trees, one type for each sort of phrase. An operand is
what indexing and calls can follow; an expression combines operands by operators. The grammar leaves
open which operator binds tighter.
-/

namespace Vimlet

/-- What the parts of a literal are. -/
inductive Element where
  /-- An expression. -/
  | item
  /-- A key, a colon and a value. -/
  | entry

/-- The sorts of phrases. -/
inductive Phrase where
  | operand
  | expression
  /-- One part of a literal, which may be missing. -/
  | part (element : Element)
  /-- All parts of a literal. -/
  | parts (element : Element)
  /-- The arguments of a call. -/
  | arguments
  /-- At least one argument. -/
  | someArguments

/-- The syntax tree of a phrase. -/
inductive Tree : Phrase → Type where
  | value (value : Value) : Tree .operand
  | paren (inner : Tree .expression) : Tree .operand
  | list (items : Tree (.parts .item)) : Tree .operand
  | object (entries : Tree (.parts .entry)) : Tree .operand
  | call (name : String) (args : Tree .arguments) : Tree .operand
  | apply (function : Tree .operand) (args : Tree .arguments) : Tree .operand
  | index (base : Tree .operand) (key : Tree .expression) : Tree .operand
  | slice (base : Tree .operand) (first last : Tree (.part .item)) : Tree .operand
  | operand (operand : Tree .operand) : Tree .expression
  | unary (symbol : Op) (isUnary : symbol.isUnary = true) (inner : Tree .expression) :
      Tree .expression
  | binary (symbol : Op) (precedence : Nat) (isBinary : symbol.precedence? = some precedence)
      (left right : Tree .expression) : Tree .expression
  | missing (element : Element) : Tree (.part element)
  | item (inner : Tree .expression) : Tree (.part .item)
  | entry (key content : Tree .expression) : Tree (.part .entry)
  | lastPart {element} (part : Tree (.part element)) : Tree (.parts element)
  | moreParts {element} (part : Tree (.part element)) (rest : Tree (.parts element)) :
      Tree (.parts element)
  | noArguments : Tree .arguments
  | arguments (args : Tree .someArguments) : Tree .arguments
  | lastArgument (argument : Tree .expression) : Tree .someArguments
  | moreArguments (argument : Tree .expression) (rest : Tree .someArguments) : Tree .someArguments

namespace Tree

def tokens : {phrase : Phrase} → Tree phrase → List Token
  | _, value v => [.val v]
  | _, paren inner => .op .leftParen :: inner.tokens ++ [.op .rightParen]
  | _, list items => .op .leftBracket :: items.tokens ++ [.op .rightBracket]
  | _, object entries => .op .leftBrace :: entries.tokens ++ [.op .rightBrace]
  | _, call name args => .call name :: .op .leftParen :: args.tokens ++ [.op .rightParen]
  | _, apply function args =>
    function.tokens ++ .op .leftParen :: args.tokens ++ [.op .rightParen]
  | _, index base key => base.tokens ++ .op .leftBracket :: key.tokens ++ [.op .rightBracket]
  | _, slice base first last =>
    base.tokens ++ .op .leftBracket :: first.tokens ++ .op .colon :: last.tokens ++
      [.op .rightBracket]
  | _, operand inner => inner.tokens
  | _, unary symbol _ inner => .op symbol :: inner.tokens
  | _, binary symbol _ _ left right => left.tokens ++ .op symbol :: right.tokens
  | _, missing _ => []
  | _, item inner => inner.tokens
  | _, entry key content => key.tokens ++ .op .colon :: content.tokens
  | _, lastPart part => part.tokens
  | _, moreParts part rest => part.tokens ++ .op .comma :: rest.tokens
  | _, noArguments => []
  | _, arguments args => args.tokens
  | _, lastArgument argument => argument.tokens
  | _, moreArguments argument rest => argument.tokens ++ .op .comma :: rest.tokens

end Tree

/-- Tokens that the grammar derives as a phrase. -/
def Derives (phrase : Phrase) (tokens : List Token) : Prop :=
  ∃ tree : Tree phrase, tree.tokens = tokens

end Vimlet
