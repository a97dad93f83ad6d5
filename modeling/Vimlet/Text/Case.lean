import Vimlet.Text.CaseTable

/-!
# Letter case

Full case conversion. An uppercase form may be longer than the character, and a capital sigma at the
end of a word becomes a final sigma.
-/

namespace Vimlet.Text

def isUppercase (c : Char) : Bool :=
  if c.toNat < 0x80 then c.isUpper
  else inRanges loneCapitalRanges c.toNat ||
    lowerRuns.any (·.contains c.toNat) && !inRanges titlecaseRanges c.toNat

/-- The counterpart of a character in a table of runs, or the character itself. -/
def counterpart (runs : List CaseRun) (c : Char) : Char :=
  match runs.find? (·.contains c.toNat) with
  | some run => run.counterpart c.toNat
  | none => c

def upperOf (c : Char) : List Char :=
  if c.toNat < 0x80 then [c.toUpper]
  else match upperExpansions.lookup c.toNat with
    | some codes => codes.map Char.ofNat
    | none => [counterpart upperRuns c]

def upper (text : String) : String := String.ofList (text.toList.flatMap upperOf)

/-- A character with case that is not transparent to casing. -/
def isCased (c : Char) : Bool := inRanges casedRanges c.toNat

/-- The characters that are looked over in a word. -/
def isCaseIgnorable (c : Char) : Bool := inRanges caseIgnorableRanges c.toNat

/-- The first character that is not transparent to casing has case. -/
def meetsCased (text : List Char) : Bool :=
  match text.dropWhile isCaseIgnorable with
  | [] => false
  | c :: _ => isCased c

/-- Lowercase form of a character between the text before it, read backwards, and the text after
it. -/
def lowerOf (before : List Char) (c : Char) (after : List Char) : List Char :=
  if c.toNat < 0x80 then [c.toLower]
  else if c == 'Σ' then
    if meetsCased before && !meetsCased after then ['ς'] else ['σ']
  else if c.toNat == 0x130 then ['i', Char.ofNat 0x307]
  else [counterpart lowerRuns c]

/-- Lowercase form of the text after `before`, which is given backwards. -/
def lowerFrom (before : List Char) : List Char → List Char
  | [] => []
  | c :: after => lowerOf before c after ++ lowerFrom (c :: before) after

def lower (text : String) : String := String.ofList (lowerFrom [] text.toList)

end Vimlet.Text
