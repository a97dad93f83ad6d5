import Vimlet.Yaml.Quoted

/-!
# Plain and block scalars

A plain scalar has no quotes and may go on over several lines that are indented far enough. A block
scalar consists of whole lines, kept as they are or folded.
-/

namespace Vimlet

namespace Yaml

/-! ### Plain scalars -/

/-- A plain scalar cannot go on with these characters. -/
def endsPlain (inFlow : Bool) : List Char → Bool
  | [] => true
  | c :: rest =>
    atBlank [c] ||
      (c == ':' &&
        (atBlank rest || inFlow && rest.head?.any (",[]\x7b\x7d".toList.contains ·))) ||
      (inFlow && ",?[]\x7b\x7d".toList.contains c)

/-- The characters of a plain scalar up to the next blank. -/
def plainWord (inFlow : Bool) : List Char → List Char
  | [] => []
  | c :: rest => if endsPlain inFlow (c :: rest) then [] else c :: plainWord inFlow rest

/-- Empty lines and the indentation after them, found within `fuel` steps; nothing if a line that
separates documents follows. -/
def plainBreaks : Nat → Cursor → Option (List Char) × Cursor
  | 0, cursor => (some [], cursor)
  | fuel + 1, cursor =>
    if cursor.sees ' ' then plainBreaks fuel cursor.skip
    else match cursor.lineBreak? with
      | some (newline, cursor) =>
        if atMarker cursor.rest then (none, cursor)
        else
          let (breaks, cursor) := plainBreaks fuel cursor
          (breaks.map (newline :: ·), cursor)
      | none => (some [], cursor)

/-- What stands between the words of a plain scalar. -/
structure Gap where
  /-- The characters that the gap stands for; none end the scalar. -/
  text : List Char
  /-- The gap goes over the end of a line. -/
  crossed : Bool
  after : Cursor

/-- The gap after a word. -/
def plainGap (cursor : Cursor) : Gap :=
  let blanks := cursor.rest.takeWhile (· == ' ')
  let cursor := cursor.skipWhile (· == ' ')
  match cursor.lineBreak? with
  | none => ⟨blanks, false, cursor⟩
  | some (newline, cursor) =>
    if atMarker cursor.rest then ⟨[], true, cursor⟩
    else
      match plainBreaks cursor.rest.length cursor with
      | (some breaks, cursor) => ⟨foldBreaks newline breaks, true, cursor⟩
      | (none, cursor) => ⟨[], true, cursor⟩

/-- A scalar, and the place after it. -/
structure Scanned where
  text : List Char
  crossed : Bool
  after : Cursor

/-- The words of a plain scalar, found within `fuel` steps. `gap` stands before the next word. -/
def plainWithin (inFlow : Bool) (indent : Int) : Nat → Gap → Scanned
  | 0, gap => ⟨[], gap.crossed, gap.after⟩
  | fuel + 1, gap =>
    let word := plainWord inFlow gap.after.rest
    if word.isEmpty || gap.after.sees '#' then ⟨[], gap.crossed, gap.after⟩
    else
      let next := plainGap (gap.after.advance word.length)
      if next.text.isEmpty || next.after.sees '#' ||
          (!inFlow && (next.after.column : Int) < indent) then
        ⟨gap.text ++ word, next.crossed, next.after⟩
      else
        let more := plainWithin inFlow indent fuel next
        { more with text := gap.text ++ word ++ more.text }

def plain (inFlow : Bool) (indent : Int) (cursor : Cursor) : Scanned :=
  plainWithin inFlow indent cursor.rest.length ⟨[], false, cursor⟩

/-! ### Block scalars -/

/-- What becomes of the line ends at the end of a block scalar. -/
inductive Chomping where
  | strip
  | clip
  | keep
deriving DecidableEq

/-- What a sign says about the last line breaks. -/
def Chomping.ofChar? : Char → Option Chomping
  | '-' => some .strip
  | '+' => some .keep
  | _ => none

/-- An indentation that is given by a digit. -/
def increment? (c : Char) : Option Nat := if c.isDigit then some (c.toNat - '0'.toNat) else none

/-- The indicators after the sign of a block scalar, which are a chomping and an indentation in
either order, and how many there are. -/
def blockIndicators (text : List Char) : Chomping × Option Nat × Nat :=
  match text.head?.bind Chomping.ofChar?, text.head?.bind increment? with
  | some chomping, _ =>
    match text.tail.head?.bind increment? with
    | some increment => (chomping, some increment, 2)
    | none => (chomping, none, 1)
  | none, some increment =>
    match text.tail.head?.bind Chomping.ofChar? with
    | some chomping => (chomping, some increment, 2)
    | none => (.clip, some increment, 1)
  | none, none => (.clip, none, 0)

/-- The place after the rest of the line on which a block scalar is announced. Only a comment may
stand there. -/
def blockHeader (cursor : Cursor) : Except Stop Cursor := do
  let cursor := cursor.skipWhile (· == ' ')
  let cursor := if cursor.sees '#' then cursor.skipWhile (!isBreak ·) else cursor
  match cursor.lineBreak? with
  | some (_, cursor) => return cursor
  | none => if cursor.rest.isEmpty then return cursor else throw refusal

/-- The empty lines before a block scalar, and its indentation, that of its most indented line so
far. -/
def blockIndent : Nat → Nat → Cursor → List Char × Nat × Cursor
  | 0, widest, cursor => ([], widest, cursor)
  | fuel + 1, widest, cursor =>
    if cursor.sees ' ' then
      let cursor := cursor.skip
      blockIndent fuel (max widest cursor.column) cursor
    else match cursor.lineBreak? with
      | some (newline, cursor) =>
        let (breaks, widest, cursor) := blockIndent fuel widest cursor
        (newline :: breaks, widest, cursor)
      | none => ([], widest, cursor)

/-- The empty lines between lines of a block scalar, found within `fuel` steps, and the place after
the indentation of the next line. -/
def blockBreaks (indent : Nat) : Nat → Cursor → List Char × Cursor
  | 0, cursor => ([], cursor)
  | fuel + 1, cursor =>
    let cursor := cursor.skipIndent indent
    match cursor.lineBreak? with
    | some (newline, cursor) =>
      let (breaks, cursor) := blockBreaks indent fuel cursor
      (newline :: breaks, cursor)
    | none => ([], cursor)

/-- What the ends of the last line and of the empty lines after it stand for. -/
def Chomping.lineEnds (chomping : Chomping) (newline : Option Char) (breaks : List Char) :
    List Char :=
  match chomping with
  | .strip => []
  | .clip => newline.toList
  | .keep => newline.toList ++ breaks

/-- The lines of a block scalar, found within `fuel` steps, after `breaks`. -/
def blockLines (folded : Bool) (chomping : Chomping) (indent : Nat) :
    Nat → List Char → Cursor → List Char × Cursor
  | 0, _, cursor => ([], cursor)
  | fuel + 1, breaks, cursor =>
    let line := cursor.rest.takeWhile (!isBreak ·)
    let isText (cursor : Cursor) : Bool := cursor.peek?.any fun c => c != ' ' && c != '\t'
    let first := isText cursor
    let ended := cursor.advance line.length
    let newline := ended.lineBreak?.map (·.1)
    let after := (ended.lineBreak?.map (·.2)).getD ended
    let (nextBreaks, next) := blockBreaks indent after.rest.length after
    if next.column = indent && !next.rest.isEmpty then
      let joint :=
        if folded && newline == some '\n' && first && isText next then
          if nextBreaks.isEmpty then [' '] else []
        else newline.toList
      let (text, cursor) := blockLines folded chomping indent fuel nextBreaks next
      (breaks ++ line ++ joint ++ text, cursor)
    else (breaks ++ line ++ chomping.lineEnds newline nextBreaks, next)

/-- The block scalar whose sign has just been read, inside a block with an indentation. -/
def block (folded : Bool) (parentIndent : Int) (cursor : Cursor) : Except Stop Scanned := do
  let (chomping, increment, count) := blockIndicators cursor.rest
  let cursor := cursor.advance count
  if increment == some 0 || !(atLineEnd cursor.rest || cursor.sees ' ') then throw refusal
  let cursor ← blockHeader cursor
  let least := (max (parentIndent + 1) 1).toNat
  let (indent, breaks, cursor) := match increment with
    | some increment =>
      let indent := least + increment - 1
      let (breaks, cursor) := blockBreaks indent (cursor.rest.length + 1) cursor
      (indent, breaks, cursor)
    | none =>
      let (breaks, widest, cursor) := blockIndent cursor.rest.length 0 cursor
      (max least widest, breaks, cursor)
  if cursor.column = indent && !cursor.rest.isEmpty then
    let (text, cursor) := blockLines folded chomping indent cursor.rest.length breaks cursor
    return ⟨text, true, cursor⟩
  else return ⟨chomping.lineEnds none breaks, true, cursor⟩

end Yaml

end Vimlet
