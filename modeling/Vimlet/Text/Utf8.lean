/-!
# Text in bytes

Reads bytes as UTF-8. What is no part of a character becomes a replacement character, one for each
longest start of a character that does not go on.
-/

namespace Vimlet

namespace Utf8

/-- What stands for bytes that are no character. -/
def replacement : Char := '\ufffd'

/-- A character of which bytes are missing. -/
structure Pending where
  bits : Nat
  missing : Nat
  low : Nat := 0x80
  high : Nat := 0xBF

/-- The first byte of a character: the characters it yields at once, or the character it starts. -/
def start (byte : Nat) : List Char × Option Pending :=
  if byte < 0x80 then ([Char.ofNat byte], none)
  else if byte < 0xC2 then ([replacement], none)
  else if byte < 0xE0 then ([], some { bits := byte - 0xC0, missing := 1 })
  else if byte == 0xE0 then ([], some { bits := 0, missing := 2, low := 0xA0 })
  else if byte == 0xED then ([], some { bits := 0xD, missing := 2, high := 0x9F })
  else if byte < 0xF0 then ([], some { bits := byte - 0xE0, missing := 2 })
  else if byte == 0xF0 then ([], some { bits := 0, missing := 3, low := 0x90 })
  else if byte < 0xF4 then ([], some { bits := byte - 0xF0, missing := 3 })
  else if byte == 0xF4 then ([], some { bits := 4, missing := 3, high := 0x8F })
  else ([replacement], none)

/-- A byte after the first of a character. -/
def next (pending : Pending) (byte : Nat) : List Char × Option Pending :=
  if pending.low ≤ byte && byte ≤ pending.high then
    let bits := pending.bits * 64 + byte % 64
    if pending.missing ≤ 1 then ([Char.ofNat bits], none)
    else ([], some { bits, missing := pending.missing - 1 })
  else
    let (chars, started) := start byte
    (replacement :: chars, started)

/-- The characters of bytes, after part of a character. -/
def decodeFrom : Option Pending → List Nat → List Char
  | none, [] => []
  | some _, [] => [replacement]
  | none, byte :: rest =>
    let (chars, pending) := start byte
    chars ++ decodeFrom pending rest
  | some pending, byte :: rest =>
    let (chars, pending) := next pending byte
    chars ++ decodeFrom pending rest

/-- The text of bytes. -/
def decode (bytes : List Nat) : String := String.ofList (decodeFrom none bytes)

end Utf8

end Vimlet
