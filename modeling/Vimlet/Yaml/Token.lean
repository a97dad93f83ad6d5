import Vimlet.Yaml.Plain

/-!
# Tokens of YAML

The tokens of a text, in which the starts and ends of blocks stand for changes of indentation. That
a scalar is a key is known only when its colon is met, so the tokens of a key are put in afterwards.
-/

namespace Vimlet

namespace Yaml

/-- A token of a text. -/
inductive Token where
  | documentStart
  | documentEnd
  | blockSequenceStart
  | blockMappingStart
  | blockEnd
  | flowSequenceStart
  | flowSequenceEnd
  | flowMappingStart
  | flowMappingEnd
  | flowEntry
  | blockEntry
  | key
  | value
  | tag (name : String)
  | scalar (plain : Bool) (text : String)
  /-- Stands for the rest of a text that cannot be read. -/
  | unreadable
deriving DecidableEq, Repr

/-- A token that may turn out to be a key. -/
structure PossibleKey where
  position : Nat
  /-- It must be a key, because it stands at the indentation of the block. -/
  required : Bool
  place : Cursor

/-- The state of the scanner. -/
structure Lexer where
  cursor : Cursor
  flow : Nat := 0
  indent : Int := -1
  outer : List Int := []
  keyAllowed : Bool := true
  /-- The possible keys, with how many brackets and braces are open around them. -/
  keys : List (Nat × PossibleKey) := []
  tokens : Array Token := #[]

namespace Lexer

def push (lexer : Lexer) (token : Token) : Lexer := { lexer with tokens := lexer.tokens.push token }

def advance (lexer : Lexer) (count : Nat) : Lexer :=
  { lexer with cursor := lexer.cursor.advance count }

/-- A bracket or a brace is open. -/
def inFlow (lexer : Lexer) : Bool := lexer.flow != 0

/-- Skips blanks, comments and line ends, within `fuel` steps. -/
def skipSpace : Nat → Lexer → Lexer
  | 0, lexer => lexer
  | fuel + 1, lexer =>
    let cursor := lexer.cursor.skipWhile (· == ' ')
    let cursor := if cursor.sees '#' then cursor.skipWhile (!isBreak ·) else cursor
    match cursor.lineBreak? with
    | some (_, cursor) =>
      skipSpace fuel { lexer with cursor, keyAllowed := lexer.keyAllowed || !lexer.inFlow }
    | none => { lexer with cursor }

/-- Closes the blocks that are indented more than a column. -/
def closeBlocks (lexer : Lexer) (column : Int) : Lexer :=
  if lexer.inFlow then lexer else go lexer.outer lexer
where
  go : List Int → Lexer → Lexer
    | [], lexer => lexer
    | indent :: outer, lexer =>
      if column < lexer.indent then go outer ({ lexer with indent, outer }.push .blockEnd)
      else lexer

/-- Opens a block at a column if it is indented more than the block around it; the answer tells
whether it is. -/
def openBlock (lexer : Lexer) (column : Nat) : Bool × Lexer :=
  if lexer.indent < column then
    (true, { lexer with indent := column, outer := lexer.indent :: lexer.outer })
  else (false, lexer)

/-- A possible key is not on this line or too far away. -/
def isStale (lexer : Lexer) (key : PossibleKey) : Bool :=
  key.place.line != lexer.cursor.line || 1024 < lexer.cursor.index - key.place.index

/-- Drops the possible keys that are too far back. -/
def dropStaleKeys (lexer : Lexer) : Except Stop Lexer := do
  if lexer.keys.any fun entry => lexer.isStale entry.2 && entry.2.required then throw refusal
  return { lexer with keys := lexer.keys.filter fun entry => !lexer.isStale entry.2 }

/-- The tokens that no later token changes: those before the first possible key. -/
def settled (lexer : Lexer) : Array Token :=
  let keys := (lexer.keys.map (·.2)).filter (!lexer.isStale ·)
  lexer.tokens.take ((keys.map (·.position)).foldl min lexer.tokens.size)

/-- Drops the possible key at this depth. -/
def dropKey (lexer : Lexer) : Except Stop Lexer := do
  match lexer.keys.lookup lexer.flow with
  | some key =>
    if key.required then throw refusal
    return { lexer with keys := lexer.keys.filter fun entry => entry.1 != lexer.flow }
  | none => return lexer

/-- Remembers that the next token may be a key. -/
def saveKey (lexer : Lexer) : Except Stop Lexer := do
  if !lexer.keyAllowed then return lexer
  let lexer ← lexer.dropKey
  let required := !lexer.inFlow && lexer.indent == lexer.cursor.column
  let key : PossibleKey := ⟨lexer.tokens.size, required, lexer.cursor⟩
  return { lexer with keys := (lexer.flow, key) :: lexer.keys }

def marker (lexer : Lexer) (token : Token) : Except Stop Lexer := do
  let lexer ← (lexer.closeBlocks (-1)).dropKey
  return ({ lexer with keyAllowed := false }.advance 3).push token

def openFlow (lexer : Lexer) (token : Token) : Except Stop Lexer := do
  let lexer ← lexer.saveKey
  return ({ lexer with flow := lexer.flow + 1, keyAllowed := true }.advance 1).push token

def closeFlow (lexer : Lexer) (token : Token) : Except Stop Lexer := do
  if !lexer.inFlow then throw refusal
  let lexer ← lexer.dropKey
  return ({ lexer with flow := lexer.flow - 1, keyAllowed := false }.advance 1).push token

/-- Scans a comma. -/
def entry (lexer : Lexer) : Except Stop Lexer := do
  let lexer ← lexer.dropKey
  return ({ lexer with keyAllowed := true }.advance 1).push .flowEntry

/-- Opens a block at the place of the next token, where a key must be allowed. -/
def openHere (lexer : Lexer) (token : Token) : Except Stop Lexer := do
  if lexer.inFlow then return lexer
  if !lexer.keyAllowed then throw refusal
  let (opened, lexer) := lexer.openBlock lexer.cursor.column
  return if opened then lexer.push token else lexer

/-- Scans the sign of an item. -/
def dash (lexer : Lexer) : Except Stop Lexer := do
  let lexer ← (← lexer.openHere .blockSequenceStart).dropKey
  return ({ lexer with keyAllowed := true }.advance 1).push .blockEntry

def questionMark (lexer : Lexer) : Except Stop Lexer := do
  let lexer ← (← lexer.openHere .blockMappingStart).dropKey
  return ({ lexer with keyAllowed := !lexer.inFlow }.advance 1).push .key

/-- A colon, which makes the possible key a key. -/
def colon (lexer : Lexer) : Except Stop Lexer := do
  match lexer.keys.lookup lexer.flow with
  | some key =>
    let keys := lexer.keys.filter fun entry => entry.1 != lexer.flow
    let lexer := { lexer with keys, keyAllowed := false }
    let (opened, lexer) :=
      if lexer.inFlow then (false, lexer) else lexer.openBlock key.place.column
    let inserted := if opened then #[.blockMappingStart, .key] else #[.key]
    let tokens := lexer.tokens.take key.position ++ inserted ++ lexer.tokens.drop key.position
    return ({ lexer with tokens }.advance 1).push .value
  | none =>
    let lexer ← (← lexer.openHere .blockMappingStart).dropKey
    return ({ lexer with keyAllowed := !lexer.inFlow }.advance 1).push .value

def isTagChar (c : Char) : Bool := c.isAlphanum || "-;/?:@&=+$,_.!~*'()[]".toList.contains c

/-- A tag: an exclamation mark and the characters after it up to a space. -/
def tag (lexer : Lexer) : Except Stop Lexer := do
  let lexer ← lexer.saveKey
  let name := lexer.cursor.rest.takeWhile isTagChar
  let rest := lexer.cursor.rest.drop name.length
  if name == ['!', '!'] || !(rest.head? == some ' ' || atLineEnd rest) then throw refusal
  return ({ lexer with keyAllowed := false }.advance name.length).push (.tag (String.ofList name))

def quotedScalar (lexer : Lexer) (quote : Char) : Except Stop Lexer := do
  let lexer ← lexer.saveKey
  let (text, rest) ← quoted quote lexer.cursor.skip.rest
  return { lexer with keyAllowed := false, cursor := lexer.cursor.moveTo rest }.push
    (.scalar false (String.ofList text))

def blockScalar (lexer : Lexer) (folded : Bool) : Except Stop Lexer := do
  let lexer ← lexer.dropKey
  let scanned ← block folded lexer.indent lexer.cursor.skip
  return { lexer with keyAllowed := true, cursor := scanned.after }.push
    (.scalar false (String.ofList scanned.text))

def plainScalar (lexer : Lexer) : Except Stop Lexer := do
  let lexer ← lexer.saveKey
  let scanned := plain lexer.inFlow (lexer.indent + 1) lexer.cursor
  return { lexer with keyAllowed := scanned.crossed, cursor := scanned.after }.push
    (.scalar true (String.ofList scanned.text))

/-- A plain scalar may start here. -/
def startsPlain (lexer : Lexer) (c : Char) (rest : List Char) : Bool :=
  !("-?:,[]\x7b\x7d#&*!|>'\"%@`".toList.contains c || atBlank [c]) ||
    (!atBlank rest && (c == '-' || (!lexer.inFlow && (c == '?' || c == ':'))))

/-- Scans a token. -/
def token (lexer : Lexer) (c : Char) (rest : List Char) : Except Stop Lexer :=
  if lexer.cursor.column == 0 && c == '-' && atMarker (c :: rest) then lexer.marker .documentStart
  else if lexer.cursor.column == 0 && c == '.' && atMarker (c :: rest) then
    lexer.marker .documentEnd
  else match c with
    | '[' => lexer.openFlow .flowSequenceStart
    | '\x7b' => lexer.openFlow .flowMappingStart
    | ']' => lexer.closeFlow .flowSequenceEnd
    | '\x7d' => lexer.closeFlow .flowMappingEnd
    | ',' => lexer.entry
    | '!' => lexer.tag
    | '\'' | '"' => lexer.quotedScalar c
    | c =>
      if c == '-' && atBlank rest then lexer.dash
      else if c == '?' && (lexer.inFlow || atBlank rest) then lexer.questionMark
      else if c == ':' && (lexer.inFlow || atBlank rest) then lexer.colon
      else if c == '|' && !lexer.inFlow then lexer.blockScalar false
      else if c == '>' && !lexer.inFlow then lexer.blockScalar true
      else if lexer.startsPlain c rest then lexer.plainScalar
      else throw refusal

/-- The state after the next token, or the tokens if there is none. -/
def next (lexer : Lexer) : Except Stop (Array Token ⊕ Lexer) := do
  let lexer := skipSpace (lexer.cursor.rest.length + 1) lexer
  let lexer ← lexer.dropStaleKeys
  let lexer := lexer.closeBlocks lexer.cursor.column
  match lexer.cursor.rest with
  | [] =>
    let lexer ← (lexer.closeBlocks (-1)).dropKey
    return .inl lexer.tokens
  | c :: rest => return .inr (← lexer.token c rest)

/-- The tokens of a text. A text that is no YAML is refused. Where it cannot be read, the tokens
before decide. -/
def tokensWithin : Nat → Lexer → Except Stop (Array Token)
  | 0, _ => throw refusal
  | fuel + 1, lexer =>
    match lexer.next with
    | .ok (.inl tokens) => return tokens
    | .ok (.inr lexer) => tokensWithin fuel lexer
    | .error .internal => return lexer.settled.push .unreadable
    | .error stop => throw stop

end Lexer

/-- The tokens of a text. A mark of the byte order may stand at its start. -/
def tokens (text : String) : Except Stop (List Token) := do
  let chars := text.toList
  if !chars.all isAllowed then throw refusal
  let cursor : Cursor := { rest := chars }
  let cursor := if cursor.sees '\ufeff' then cursor.skip else cursor
  return (← Lexer.tokensWithin (chars.length + 1) { cursor }).toList

end Yaml

end Vimlet
