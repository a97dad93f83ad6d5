import Vimlet.Expr.Token
import Vimlet.Session.Basic
import Vimlet.Value.Arithmetic
import Vimlet.Value.Container
import Vimlet.Value.Equality

/-!
# Reduction of expressions

An expression is evaluated by reducing its tokens until one value is left. A cycle runs a fixed
sequence of passes over the tokens, whose order gives the operators their precedence. Cycles are
repeated until nothing changes.
-/

namespace Vimlet.Reduce

variable {σ : Type}

/-- What a pass makes of tokens, and whether it changed them. -/
abbrev Outcome := List Token × Bool

/-- A rule looks at the tokens from a place on, given those before it backwards. It may replace the
first few by a value. -/
abbrev Rule (σ : Type) := List Token → List Token → Run σ (Option (Value × List Token))

/-- Applies a rule at each place from left to right; a sticky pass looks at a value it made once
more. `before` holds the tokens passed by, backwards. -/
def sweepWithin (sticky : Bool) (rule : Rule σ) :
    Nat → List Token → List Token → Bool → Run σ Outcome
  | 0, before, rest, changed => return (before.reverse ++ rest, changed)
  | _ + 1, before, [], changed => return (before.reverse, changed)
  | fuel + 1, before, token :: rest, changed => do
    match ← rule before (token :: rest) with
    | some (value, after) =>
      if sticky then sweepWithin sticky rule fuel before (.val value :: after) true
      else sweepWithin sticky rule fuel (.val value :: before) after true
    | none => sweepWithin sticky rule fuel (token :: before) rest changed

/-- Applies a rule at each place from left to right. Each step leaves fewer tokens to look at. -/
def sweep (sticky : Bool) (rule : Rule σ) (tokens : List Token) : Run σ Outcome :=
  sweepWithin sticky rule tokens.length [] tokens false

/-- An operand can start after these tokens, given backwards. -/
def startsOperand : List Token → Bool
  | [] => true
  | .op symbol :: _ => !symbol.closes
  | _ :: _ => false

/-! ### Calls -/

/-- Reads at least one argument up to the closing parenthesis. -/
def argumentsFrom? : List Token → Option (List Value × List Token)
  | .val value :: .op .rightParen :: rest => some ([value], rest)
  | .val value :: .op .comma :: rest =>
    (argumentsFrom? rest).map fun (values, rest) => (value :: values, rest)
  | _ => none

/-- Reads the arguments of a call after its opening parenthesis, once all of them are values. -/
def arguments? : List Token → Option (List Value × List Token)
  | .op .rightParen :: rest => some ([], rest)
  | tokens => argumentsFrom? tokens

/-- Calls a function by a reference to it. -/
def refCallRule (engine : Engine σ) : Rule σ := fun _ tokens =>
  match tokens with
  | .val (.function ref) :: .op .leftParen :: rest =>
    match arguments? rest with
    | some (args, rest) => return some (← engine.callRef ref args, rest)
    | none => return none
  | _ => return none

/-- Calls a function by name. The token after the name is its opening parenthesis. -/
def callRule (engine : Engine σ) : Rule σ := fun _ tokens =>
  match tokens with
  | .call name :: _ :: rest =>
    match arguments? rest with
    | some (args, rest) => return some (← engine.call name args, rest)
    | none => return none
  | _ => return none

/-! ### Literals -/

/-- The tokens before the first occurrence of an operator, and those after it. -/
def splitAt? (symbol : Op) : List Token → Option (List Token × List Token)
  | [] => none
  | token :: rest =>
    if token.isOp symbol then some ([], rest)
    else (splitAt? symbol rest).map fun (inside, rest) => (token :: inside, rest)

/-- The parts between commas; `part` holds the current one backwards. -/
def partsFrom (part : List Token) : List Token → List (List Token)
  | [] => if part.isEmpty then [] else [part.reverse]
  | token :: rest =>
    if token.isOp .comma then
      if part.isEmpty then partsFrom [] rest else part.reverse :: partsFrom [] rest
    else partsFrom (token :: part) rest

/-- The parts between commas that are not empty. -/
def parts (tokens : List Token) : List (List Token) := partsFrom [] tokens

/-- An item of a List. -/
def item? : List Token → Option Value
  | [.val value] => some value
  | _ => none

/-- An entry of an Object. -/
def entry? : List Token → Option (Value × Value)
  | [.val key, .op .colon, .val value] => some (key, value)
  | _ => none

/-- Makes a List of a literal whose items are values. -/
def listRule : Rule σ := fun before tokens =>
  match tokens with
  | .op .leftBracket :: rest =>
    if startsOperand before then
      match splitAt? .rightBracket rest with
      | some (inside, rest) =>
        match (parts inside).mapM item? with
        | some items => return some (← Run.onHeap (Mem.newList items), rest)
        | none => return none
      | none => return none
    else return none
  | _ => return none

/-- Makes an Object of a literal whose keys and values are values. -/
def objectRule : Rule σ := fun before tokens =>
  match tokens with
  | .op .leftBrace :: rest =>
    if startsOperand before then
      match splitAt? .rightBrace rest with
      | some (inside, rest) =>
        match (parts inside).mapM entry? with
        | some entries => do
          let heap := (← get).heap
          let table := Table.ofList (entries.map fun (key, value) => (heap.text key, value))
          return some (← Run.onHeap (Mem.newObject table), rest)
        | none => return none
      | none => return none
    else return none
  | _ => return none

/-! ### Indexing and parentheses -/

/-- What stands in brackets after a value: a key or the bounds of a slice. -/
inductive Subscript where
  | key (key : Value)
  | bounds (first last : Value)

/-- A bound of a slice, if there is one. -/
def optionalValue : List Token → Value × List Token
  | .val value :: rest => (value, rest)
  | tokens => (.nil, tokens)

/-- Reads a subscript after its opening bracket, once its parts are values. -/
def subscript? (tokens : List Token) : Option (Subscript × List Token) :=
  match tokens with
  | .val key :: .op .rightBracket :: rest => some (.key key, rest)
  | _ =>
    let (first, rest) := optionalValue tokens
    match rest with
    | .op .colon :: rest =>
      let (last, rest) := optionalValue rest
      match rest with
      | .op .rightBracket :: rest => some (.bounds first last, rest)
      | _ => none
    | _ => none

/-- Takes an item or a slice. -/
def indexRule : Rule σ := fun _ tokens =>
  match tokens with
  | .val base :: .op .leftBracket :: rest =>
    match subscript? rest with
    | some (.key key, rest) => return some (← Run.onHeap (Mem.index base key), rest)
    | some (.bounds first last, rest) =>
      return some (← Run.onHeap (Mem.slice base first last), rest)
    | none => return none
  | _ => return none

/-- Drops the parentheses around a value. -/
def parenRule : Rule σ := fun before tokens =>
  match tokens with
  | .op .leftParen :: .val value :: .op .rightParen :: rest =>
    return if startsOperand before then some (value, rest) else none
  | _ => return none

/-! ### Operators -/

/-- Applies an operator to its operand. -/
def applyUnary (symbol : Op) (operand : Value) : Run σ Value := do
  match symbol with
  | .minus => Run.ofExcept operand.negate
  | .bang => return .bool (!(← get).truth operand)
  | _ =>
    if operand.isInteger then return operand
    else Run.ofExcept (do (← operand.negate).negate)

/-- The tokens start with a bracket that continues the operand before it. -/
def continuesOperand : List Token → Bool
  | .op symbol :: _ => symbol.continues
  | _ => false

/-- Applies unary operators from right to left, so that a chain of them collapses at once. -/
def unaryFrom (before : List Token) : List Token → Run σ Outcome
  | [] => return ([], false)
  | token :: rest => do
    let (rest, changed) ← unaryFrom (token :: before) rest
    match token, rest with
    | .op symbol, .val operand :: after =>
      if symbol.isUnary && startsOperand before && !continuesOperand after then
        return (.val (← applyUnary symbol operand) :: after, true)
      else return (token :: rest, changed)
    | _, _ => return (token :: rest, changed)

/-- Applies an operator to both of its operands. -/
def applyBinary (symbol : Op) (a b : Value) : Run σ Value :=
  match symbol with
  | .times => Run.ofExcept (a.mul b)
  | .divide => Run.ofExcept (a.div b)
  | .modulo => Run.ofExcept (a.mod b)
  | .plus => Run.ofExcept (a.add b)
  | .minus => Run.ofExcept (a.sub b)
  | .dot => do
    let heap := (← get).heap
    return .str (heap.text a ++ heap.text b)
  | .less => return .bool (a.less b)
  | .lessEqual => return .bool (a.lessEq b)
  | .greater => return .bool (b.less a)
  | .greaterEqual => return .bool (b.lessEq a)
  | .equal => return .bool (← Run.onHeap (Mem.equal a b))
  | .notEqual => return .bool (!(← Run.onHeap (Mem.equal a b)))
  | _ => throw .internal

/-- An operation of some precedence may take the value after these tokens, given backwards, as its
left operand. -/
def leftIsFree (precedence : Nat) : List Token → Bool
  | [] => true
  | .op symbol :: before =>
    !(symbol.precedence?.any (precedence ≤ ·)) && !(symbol.isUnary && startsOperand before)
  | _ :: _ => false

/-- An operation of some precedence may take the value before these tokens as its right operand. -/
def rightIsFree (precedence : Nat) : List Token → Bool
  | [] => true
  | .op symbol :: _ => !symbol.continues && !(symbol.precedence?.any (precedence < ·))
  | _ :: _ => false

/-- Applies the binary operators of one precedence. -/
def binaryRule (precedence : Nat) : Rule σ := fun before tokens =>
  match tokens with
  | .val a :: .op symbol :: .val b :: rest =>
    if symbol.precedence? == some precedence && leftIsFree precedence before &&
        rightIsFree precedence rest then
      return some (← applyBinary symbol a b, rest)
    else return none
  | _ => return none

/-! ### Cycles -/

/-- One pass over the tokens, with whether it has changed them. -/
abbrev Pass (σ : Type) := List Token → Run σ Outcome

/-- The passes of a cycle. -/
def passes (engine : Engine σ) : List (Pass σ) :=
  [sweep false (refCallRule engine), sweep false (callRule engine), sweep false listRule,
   sweep true indexRule, sweep false objectRule, sweep false parenRule, unaryFrom [],
   sweep true (binaryRule 4), sweep true (binaryRule 3), sweep true (binaryRule 2),
   sweep true (binaryRule 1)]

/-- Makes passes, one after the other. -/
def runPasses : List (Pass σ) → Pass σ
  | [], tokens => return (tokens, false)
  | pass :: rest, tokens => do
    let (tokens, changed) ← pass tokens
    let (tokens, changedLater) ← runPasses rest tokens
    return (tokens, changed || changedLater)

/-- Reduces tokens to a value in at most `fuel` cycles. -/
def reduceWithin (engine : Engine σ) (text : String) : Nat → List Token → Run σ Value
  | _, [] => throw .internal
  | _, [.val value] => return value
  | _, [_] => Run.fault (.invalidExpression text)
  | 0, _ => Run.fault (.invalidExpression text)
  | fuel + 1, tokens => do
    let (tokens, changed) ← runPasses (passes engine) tokens
    if changed then reduceWithin engine text fuel tokens
    else Run.fault (.invalidExpression text)

/-- Reduces tokens to a value. Each cycle that changes the tokens leaves fewer of them. -/
def reduce (engine : Engine σ) (text : String) (tokens : List Token) : Run σ Value :=
  reduceWithin engine text tokens.length tokens

end Vimlet.Reduce
