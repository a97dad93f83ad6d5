import Vimlet.Line.Basic

/-!
# Sources of lines

A scan reads the statements of a script from its text; a replay repeats statements that were read
before. Both are values, so a copy of a source starts again from the same place.
-/

namespace Vimlet

/-- A statement with the text after it. -/
structure Segment where
  reversed : List Char
  rest : List Char
  /-- The number of the line on which the rest starts. -/
  nextNumber : Nat
deriving DecidableEq, Repr

/-- The rest of a script. -/
structure Scan where
  rest : List Char
  /-- The number of the line on which it starts. -/
  number : Nat
deriving DecidableEq, Repr

namespace Scan

/-- The whole of a script. -/
def ofText (text : String) : Scan := ⟨text.toList, 1⟩

/-- Reads up to a separator: a line end, or a bar outside a comment, if no backslash protects it.
`taken` holds what was read, backwards. -/
def takeFrom (comment escaped : Bool) (taken : List Char) (number : Nat) : List Char → Segment
  | [] => ⟨taken, [], number⟩
  | c :: rest =>
    if (c == '\n' || (c == '|' && !comment)) && !escaped then
      ⟨taken, rest, if c == '\n' then number + 1 else number⟩
    else
      let number := if c == '\n' then number + 1 else number
      let escaped := if Text.isBlank c then escaped else c == '\\'
      takeFrom comment escaped (c :: taken) number rest

/-- The characters up to the end of a statement. -/
def segment (scan : Scan) : Segment :=
  let indent := scan.rest.takeWhile Text.isSpaceOrTab
  let body := scan.rest.dropWhile Text.isSpaceOrTab
  takeFrom (body.head? == some '"') false indent.reverse scan.number body

/-- What is left of a script. -/
def after (segment : Segment) : Scan := ⟨segment.rest, segment.nextNumber⟩

/-- The next statement, found within `fuel` segments. -/
def nextWithin : Nat → Scan → Option (Line × Scan)
  | 0, _ => none
  | fuel + 1, scan =>
    if scan.rest.isEmpty then none
    else
      let segment := scan.segment
      match Line.parse? segment.reversed.reverse scan.number with
      | some line => some (line, after segment)
      | none => nextWithin fuel (after segment)

/-- The next statement and the place after it. A segment that is no statement takes at least one
character. -/
def next? (scan : Scan) : Option (Line × Scan) := nextWithin scan.rest.length scan

def linesWithin : Nat → Scan → List Line
  | 0, _ => []
  | fuel + 1, scan =>
    if scan.rest.isEmpty then []
    else
      let segment := scan.segment
      match Line.parse? segment.reversed.reverse scan.number with
      | some line => line :: linesWithin fuel (after segment)
      | none => linesWithin fuel (after segment)

/-- The statements of the rest of a script. -/
def lines (scan : Scan) : List Line := linesWithin scan.rest.length scan

end Scan

/-- The statements of a script. -/
def scriptLines (text : String) : List Line := (Scan.ofText text).lines

/-- Where statements come from. -/
inductive Source where
  | scan (place : Scan)
  | replay (lines : List Line)
deriving DecidableEq, Repr

namespace Source

/-- The next statement, and the source after it. -/
def next? : Source → Option (Line × Source)
  | scan place => place.next?.map fun (line, place) => (line, scan place)
  | replay [] => none
  | replay (line :: rest) => some (line, replay rest)

end Source

end Vimlet
