import Vimlet.Statement.Pattern
import Vimlet.Text.Split

/-!
# Parts of statements

How the text of a `let`, a `for` and a `function` statement is divided.
-/

namespace Vimlet

/-- The operation of an assignment such as `+=`. -/
inductive Compound where
  | add
  | sub
  | mul
  | div
  | concat
deriving DecidableEq, Repr

namespace Compound

/-- The operation that a sign stands for. -/
def ofChar? : Char → Option Compound
  | '+' => some add
  | '-' => some sub
  | '*' => some mul
  | '/' => some div
  | '.' => some concat
  | _ => none

/-- The sign of an operation. -/
def text : Compound → String
  | add => "+"
  | sub => "-"
  | mul => "*"
  | div => "/"
  | concat => "."

end Compound

/-- The parts of a `let` statement. -/
structure Assignment where
  target : String
  operator : Option Compound
  expression : String
deriving DecidableEq, Repr

namespace Assignment

/-- Divides a text at a bare equals sign, given the text before it backwards. -/
def divide (before after : List Char) : Assignment :=
  let expression := String.ofList (Text.trim after)
  match before with
  | c :: shorter =>
    match Compound.ofChar? c with
    | some operator =>
      let target := if operator = .concat then shorter.dropWhile (· == '.') else shorter
      ⟨String.ofList (Text.trim target.reverse), some operator, expression⟩
    | none => ⟨String.ofList (Text.trim before.reverse), none, expression⟩
  | [] => ⟨"", none, expression⟩

/-- The equals sign between two texts is part of a comparison. -/
def isComparison (before after : List Char) : Bool :=
  (match after with
    | c :: _ => c == '=' || c == '~'
    | [] => false) ||
  (match before with
    | c :: _ => c == '=' || c == '!' || c == '<' || c == '>'
    | [] => false)

/-- Looks for the first bare equals sign. `quote` is the quote of the current string, and `before`
the text before, backwards. -/
def splitFrom (quote : Option Char) (before : List Char) : List Char → Except Fault Assignment
  | [] => .error (.expected .equalsSign)
  | c :: rest =>
    match quote with
    | some mark => splitFrom (if c == mark then none else quote) (c :: before) rest
    | none =>
      if c == '"' || c == '\'' then splitFrom (some c) (c :: before) rest
      else if c == '=' && !isComparison before rest then .ok (divide before rest)
      else splitFrom none (c :: before) rest

/-- Divides the text of a `let` statement at its first bare equals sign. -/
def split (text : String) : Except Fault Assignment := splitFrom none [] text.toList

end Assignment

/-- The parts of a `function` statement. -/
structure FunctionHeader where
  name : String
  params : List String
deriving DecidableEq, Repr

namespace FunctionHeader

/-- A name that a parameter may have. -/
def isParameter : List Char → Bool
  | [] => false
  | c :: rest => Pattern.startsName c && rest.all Text.isWord

/-- Checks parameter names from left to right. -/
def checkParameters : List (List Char) → Except Fault Unit
  | [] => .ok ()
  | param :: rest =>
    if isParameter param then checkParameters rest
    else .error (.expected (.parameterName (String.ofList param)))

/-- Reads a name and a list of parameters in parentheses; the text after them is not looked at. -/
def parse (text : String) : Except Fault FunctionHeader := do
  let malformed : Fault := .expected .functionHeader
  match Pattern.splitName? (Text.trimStart text.toList) with
  | none => throw malformed
  | some (name, rest) =>
    match Text.trimStart rest with
    | '(' :: rest =>
      if !rest.contains ')' then throw malformed
      let inside := rest.takeWhile (· != ')')
      let params := ((Text.split [','] inside).map Text.trim).filter (!·.isEmpty)
      checkParameters params
      return ⟨name, params.map String.ofList⟩
    | _ => throw malformed

end FunctionHeader

/-- The pattern and the expression of a `for` statement, as texts. -/
structure LoopHeader where
  pattern : String
  expression : String
deriving DecidableEq, Repr

namespace LoopHeader

/-- The text after blanks, the word `in` and blanks. -/
def afterIn? (text : List Char) : Option (List Char) :=
  match text with
  | c :: _ =>
    if Text.isBlank c then
      match Text.trimStart text with
      | 'i' :: 'n' :: d :: rest =>
        if Text.isBlank d then
          match Text.trimStart rest with
          | [] => rest.getLast?.map ([·])
          | rest => some rest
        else none
      | _ => none
    else none
  | [] => none

/-- Looks for the first `in` after at least one character; `before` is the text before, backwards.
-/
def splitFrom? (before : List Char) : List Char → Option LoopHeader
  | [] => none
  | c :: rest =>
    match if before.isEmpty then none else afterIn? (c :: rest) with
    | some expression => some ⟨String.ofList before.reverse, String.ofList expression⟩
    | none => splitFrom? (c :: before) rest

/-- Divides the text of a `for` statement at its first `in`. -/
def parse (text : String) : Except Fault LoopHeader :=
  match splitFrom? [] (Text.trimStart text.toList) with
  | some header => .ok header
  | none => .error (.expected .loopHeader)

end LoopHeader

/-- A target of an assignment inside of a container. -/
structure ItemTarget where
  container : String
  key : String
deriving DecidableEq, Repr

/-- Reads a target with a key that is not empty. -/
def ItemTarget.parse? (text : String) : Option ItemTarget := do
  let (container, rest) ← Pattern.splitName? text.toList
  match Text.trimStart rest with
  | '[' :: rest =>
    match rest.reverse with
    | ']' :: key => if key.isEmpty then none else some ⟨container, String.ofList key.reverse⟩
    | _ => none
  | _ => none

end Vimlet
