import Vimlet.Number.Format
import Vimlet.Number.Reading

/-!
# Lines

A line is one statement: a range, a command word, a bang and the text after them.
-/

namespace Vimlet

/-- The lines of a buffer that a command applies to. -/
inductive LineRange where
  | current
  | line (n : Nat)
  | whole
  | select (pattern : String)
  | from (start : Nat)
  | upTo (stop : Nat)
  | between (start stop : Nat)
deriving DecidableEq, Repr

namespace LineRange

def text : LineRange → String
  | current => ""
  | line n => Nat.repr n
  | whole => "%"
  | select pattern => "/" ++ pattern ++ "/"
  | .from start => Nat.repr start ++ ","
  | upTo stop => "," ++ Nat.repr stop
  | between start stop => Nat.repr start ++ "," ++ Nat.repr stop

/-- The name of the kind of a range. -/
def word : LineRange → String
  | current => "current"
  | line _ => "line"
  | whole => "whole"
  | select _ => "select"
  | .from _ => "from"
  | upTo _ => "to"
  | between .. => "range"

/-- Reads a pattern up to the slash that ends it; a backslash protects the next character. -/
def splitPattern : List Char → List Char × List Char
  | [] => ([], [])
  | '/' :: rest => ([], rest)
  | '\\' :: c :: rest =>
    let (pattern, rest) := splitPattern rest
    ('\\' :: c :: pattern, rest)
  | c :: rest =>
    let (pattern, rest) := splitPattern rest
    (c :: pattern, rest)

/-- The number that digits stand for, if there are any. -/
def number? (digits : List Char) : Option Nat :=
  if digits.isEmpty then none else some (ofDecimalDigits digits)

/-- The range between two lines, of which either may be left out. -/
def ofBounds : Option Nat → Option Nat → LineRange
  | some start, some stop => between start stop
  | some start, none => .from start
  | none, some stop => upTo stop
  | none, none => whole

/-- The range of line numbers at the start of a text, and the rest. -/
def splitNumbers (text : List Char) : LineRange × List Char :=
  let start := number? (text.takeWhile Text.isDecimal)
  let rest := text.dropWhile Text.isDecimal
  match rest.dropWhile Text.isSpaceOrTab with
  | ',' :: afterComma =>
    let afterComma := afterComma.dropWhile Text.isSpaceOrTab
    (ofBounds start (number? (afterComma.takeWhile Text.isDecimal)),
      afterComma.dropWhile Text.isDecimal)
  | _ =>
    match start with
    | some n => (line n, rest)
    | none => (current, rest)

/-- The range at the start of a text, and the rest. -/
def split : List Char → LineRange × List Char
  | '/' :: rest =>
    let (pattern, rest) := splitPattern rest
    (select (String.ofList pattern), rest)
  | '%' :: rest => (whole, rest)
  | text => splitNumbers text

end LineRange

/-- A statement. -/
structure Line where
  range : LineRange
  command : String
  bang : Bool
  /-- The text after the command word and the bang. -/
  params : String
  /-- The number of the line on which the statement starts. -/
  number : Nat
deriving DecidableEq, Repr

namespace Line

/-- The number of characters after a backslash that belong to a line end and the blanks around it.
-/
def continuation? (text : List Char) : Option Nat :=
  match text.dropWhile Text.isSpaceOrTab with
  | '\n' :: after =>
    some ((text.takeWhile Text.isSpaceOrTab).length + 1 +
      (after.takeWhile Text.isSpaceOrTab).length)
  | _ => none

/-- Joins continued lines, after `skip` characters of a continuation that has been recognised. -/
def joinFrom : Nat → List Char → List Char
  | _, [] => []
  | skip + 1, _ :: rest => joinFrom skip rest
  | 0, c :: rest =>
    match if c == '\\' then continuation? rest else none with
    | some skip => ' ' :: joinFrom skip rest
    | none => c :: joinFrom 0 rest

/-- Joins continued lines: a backslash, the line end after it and the blanks around that become one
space. -/
def joinContinued (text : List Char) : List Char := joinFrom 0 text

/-- The command word at the start of a text, and the rest. -/
def splitCommand (text : List Char) : List Char × List Char :=
  (text.takeWhile Text.isAlphanumeric, text.dropWhile Text.isAlphanumeric)

def splitBang (text : List Char) : Bool × List Char :=
  (text.head? == some '!', text.dropWhile (· == '!'))

/-- The statement without continuations, blanks around it and colons before it. -/
def normalize (text : List Char) : List Char :=
  Text.trimStart ((Text.trim (joinContinued text)).dropWhile (· == ':'))

/-- Reads a statement; blanks, comments and texts without a command are none. -/
def parse? (text : List Char) (number : Nat) : Option Line :=
  match normalize text with
  | [] => none
  | '"' :: _ => none
  | chars =>
    let (range, rest) := LineRange.split chars
    let (command, rest) := splitCommand rest
    let (bang, params) := splitBang rest
    if !bang && command.isEmpty then none
    else some ⟨range, String.ofList command, bang, String.ofList (Text.trimStart params), number⟩

def text (line : Line) : String :=
  line.range.text ++ line.command ++ (if line.bang then "!" else "") ++
    (if line.params == "" then "" else " ") ++ line.params

end Line

end Vimlet
