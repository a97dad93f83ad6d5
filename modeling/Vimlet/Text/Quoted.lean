import Vimlet.Text.Printable

/-!
# Quoted text in messages

A message shows a text between quotes, with escapes for what has no visible form. Single quotes are
used, or double quotes if the text has single quotes and no double ones.
-/

namespace Vimlet.Text

/-- The last `width` hexadecimal digits of a number, in lower case. -/
def hexDigits (width code : Nat) : List Char :=
  let digits := Nat.toDigits 16 code
  List.replicate (width - digits.length) '0' ++ digits

/-- The quotation mark that a text is put in. -/
def quoteFor (text : List Char) : Char :=
  if text.contains '\'' && !text.contains '"' then '"' else '\''

def quotedChar (quote c : Char) : List Char :=
  if c == quote || c == '\\' then ['\\', c]
  else if c == '\n' then ['\\', 'n']
  else if c == '\t' then ['\\', 't']
  else if c == '\r' then ['\\', 'r']
  else if isPrintable c then [c]
  else if c.toNat ≤ 0xFF then '\\' :: 'x' :: hexDigits 2 c.toNat
  else if c.toNat ≤ 0xFFFF then '\\' :: 'u' :: hexDigits 4 c.toNat
  else '\\' :: 'U' :: hexDigits 8 c.toNat

def quotedByte (quote : Char) (byte : Nat) : List Char :=
  if byte < 0x80 then quotedChar quote (Char.ofNat byte) else '\\' :: 'x' :: hexDigits 2 byte

/-- Bytes between quotes after the letter that marks them. Bytes that are no visible character have
escapes. -/
def quotedBytes (bytes : List Nat) : String :=
  let quote := quoteFor (bytes.map Char.ofNat)
  String.ofList ('b' :: quote :: bytes.flatMap (quotedByte quote) ++ [quote])

/-- A text between quotation marks. -/
def quoted (text : String) : String :=
  let chars := text.toList
  let quote := quoteFor chars
  String.ofList (quote :: chars.flatMap (quotedChar quote) ++ [quote])

end Vimlet.Text
