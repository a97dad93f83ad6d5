/-!
# Base 64

Bytes written with sixty-four characters, four for every three bytes.
-/

namespace Vimlet

namespace Base64

/-- The six bits that a character stands for. -/
def sextet? (c : Char) : Option Nat :=
  if c.isUpper then some (c.toNat - 'A'.toNat)
  else if c.isLower then some (c.toNat - 'a'.toNat + 26)
  else if c.isDigit then some (c.toNat - '0'.toNat + 52)
  else if c == '+' then some 62
  else if c == '/' then some 63
  else none

/-- Progress inside a group of four: how many were read, bits that are no byte yet, and padding at
the end. -/
structure Group where
  filled : Nat := 0
  /-- Bits that are not yet part of a byte. -/
  bits : Nat := 0
  pads : Nat := 0

/-- Adds six bits to a group; the answer has the byte that they complete. -/
def Group.push (group : Group) (sextet : Nat) : Option Nat × Group :=
  match group.filled with
  | 0 => (none, ⟨1, sextet, 0⟩)
  | 1 => (some (group.bits * 4 + sextet / 16), ⟨2, sextet % 16, 0⟩)
  | 2 => (some (group.bits * 16 + sextet / 4), ⟨3, sextet % 4, 0⟩)
  | _ => (some (group.bits * 64 + sextet), {})

/-- Reads characters inside a group. Padding that completes it ends the text, and foreign characters
are skipped. -/
def decodeFrom? (group : Group) : List Char → Option (List Nat)
  | [] => if group.filled = 0 then some [] else none
  | '=' :: rest =>
    if 2 ≤ group.filled && 4 ≤ group.filled + group.pads + 1 then some []
    else
      let pads := if 2 ≤ group.filled then group.pads + 1 else group.pads
      decodeFrom? { group with pads } rest
  | c :: rest =>
    match sextet? c with
    | none => decodeFrom? group rest
    | some sextet =>
      let (byte, group) := group.push sextet
      (byte.toList ++ ·) <$> decodeFrom? group rest

/-- The bytes that a text stands for, if its last group is complete. -/
def decode? (text : List Char) : Option (List Nat) := decodeFrom? {} text

end Base64

end Vimlet
