import Vimlet.Text.Blank

/-!
# Splitting and searching

A text is split into words at blanks, or into parts at the leftmost occurrences of a separator that
do not overlap.
-/

namespace Vimlet.Text

/-- Collects the words of a text; `word` holds the current word backwards. -/
def wordsFrom (word : List Char) : List Char → List (List Char)
  | [] => if word.isEmpty then [] else [word.reverse]
  | c :: rest =>
    if isBlank c then
      if word.isEmpty then wordsFrom [] rest else word.reverse :: wordsFrom [] rest
    else
      wordsFrom (c :: word) rest

/-- The maximal runs of characters that are not blank. -/
def words (text : List Char) : List (List Char) := wordsFrom [] text

/-- Collects the parts between separators; `skip` characters of one are left, and `part` is the
current part backwards. -/
def splitFrom (separator : List Char) : Nat → List Char → List Char → List (List Char)
  | _, part, [] => [part.reverse]
  | skip + 1, part, _ :: rest => splitFrom separator skip part rest
  | 0, part, c :: rest =>
    if separator.isPrefixOf (c :: rest) then
      part.reverse :: splitFrom separator (separator.length - 1) [] rest
    else
      splitFrom separator 0 (c :: part) rest

/-- The parts of a text between the occurrences of a separator that is not empty. -/
def split (separator text : List Char) : List (List Char) := splitFrom separator 0 [] text

/-- Position of the first occurrence of a needle, counted from `position`. -/
def findFrom (needle : List Char) (position : Nat) : List Char → Option Nat
  | [] => if needle.isEmpty then some position else none
  | c :: rest =>
    if needle.isPrefixOf (c :: rest) then some position
    else findFrom needle (position + 1) rest

/-- The parts with a separator between them. -/
def join (separator : List Char) : List (List Char) → List Char
  | [] => []
  | [part] => part
  | part :: next :: rest => part ++ separator ++ join separator (next :: rest)

end Vimlet.Text
