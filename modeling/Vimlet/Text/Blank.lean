import Vimlet.Text.Range

/-!
# Blanks

White space of any script, and the removal of blanks around a text.
-/

namespace Vimlet.Text

/-- White space, the information separators and the wide spaces included. -/
def blankRanges : List (Nat × Nat) :=
  [(0x09, 0x0D), (0x1C, 0x20), (0x85, 0x85), (0xA0, 0xA0), (0x1680, 0x1680), (0x2000, 0x200A),
   (0x2028, 0x2029), (0x202F, 0x202F), (0x205F, 0x205F), (0x3000, 0x3000)]

/-- White space. -/
def isBlank (c : Char) : Bool := inRanges blankRanges c.toNat

def isSpaceOrTab (c : Char) : Bool := c == ' ' || c == '\t'

def dropLeading (p : Char → Bool) (text : List Char) : List Char := text.dropWhile p

/-- Drops characters from the end. -/
def dropTrailing (p : Char → Bool) (text : List Char) : List Char :=
  (text.reverse.dropWhile p).reverse

def trimStart (text : List Char) : List Char := dropLeading isBlank text

def trimEnd (text : List Char) : List Char := dropTrailing isBlank text

def trim (text : List Char) : List Char := trimEnd (trimStart text)

def allBlank (text : List Char) : Bool := text.all isBlank

def strip (text : String) : String := String.ofList (trim text.toList)

end Vimlet.Text
