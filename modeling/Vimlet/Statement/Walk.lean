import Vimlet.Statement.Keyword
import Vimlet.Statement.Simple

/-!
# Walking through statements

Scripts are interpreted as a stream of statements, without a tree. A walk goes through the
statements of a block up to its end. Its mode says what happens to the statements on the way: they
are executed, skipped or captured. A loop walks its body again for each iteration, and then once
more to skip it.
-/

namespace Vimlet

variable {σ : Type}

/-- What is done with the statements of a block. -/
inductive Mode where
  | execute
  /-- Pass by, but look for a branch to execute. -/
  | skip
  | skipToEnd
  | capture
deriving DecidableEq, Repr

/-- How a walk through a block ended. -/
structure Passage where
  rest : List Line
  captured : List Line := []
  /-- The statement that closed the block, if it was not the script. -/
  closing : Option Line := none
deriving Repr

/-- Goes on with a walk, and adds statements before those that it captures in the mode that
captures. -/
@[inline]
def capturing (mode : Mode) (lines : List Line) (walk : Run σ Passage) : Run σ Passage :=
  if mode = .capture then do
    let passage ← walk
    return { passage with captured := lines ++ passage.captured }
  else walk

/-- The truth of the condition of a statement. -/
def condition (engine : Engine σ) (line : Line) : Run σ Bool := do
  Run.setLine line
  let value ← engine.eval line.params
  return (← get).truth value

/-- The mode of a walk after an `elseif` or an `else`. -/
def nextBranch (engine : Engine σ) (keyword : String) (line : Line) : Mode → Run σ Mode
  | .capture => return .capture
  | .execute => return .skipToEnd
  | .skipToEnd => return .skipToEnd
  | .skip => do
    if keyword == "else" then return .execute
    else if ← condition engine line then return .execute
    else return .skip

/-- Runs the body of a loop once; a `continue` ends it. -/
def iteration (body : Run σ Unit) : Run σ Unit := do
  match ← Run.attempt body with
  | .ok _ => return
  | .error .continuing => return
  | .error stop => throw stop

/-- Runs a loop; a `break` ends it. -/
def loop (iterations : Run σ Unit) : Run σ Unit := do
  modify fun session => { session with loopDepth := session.loopDepth + 1 }
  Run.ensure (fun session => { session with loopDepth := session.loopDepth - 1 }) do
    match ← Run.attempt iterations with
    | .ok _ => return
    | .error .breaking => return
    | .error stop => throw stop

/-- Repeats a body while a condition holds, at most `fuel` times. -/
def repeatWhile (holds : Run σ Bool) (body : Run σ Unit) : Nat → Run σ Unit
  | 0 => do Run.fault (.timeOut (← get).timeout)
  | fuel + 1 => do
    if ← holds then
      Run.checkPatience
      iteration body
      repeatWhile holds body fuel

/-- Runs a body once for each item, with the names of a pattern bound in a frame of its own. -/
def repeatFor (pattern : Pattern) (body : Run σ Unit) : List Value → Run σ Unit
  | [] => return
  | item :: rest => do
    modify (·.enter false)
    Run.ensure (·.leave) do
      bindPattern Run.declare pattern item
      iteration body
    repeatFor pattern body rest

/-- Runs the iterations of a `while` statement. Each uses up patience, which bounds their number. -/
def runWhile (engine : Engine σ) (line : Line) (body : Run σ Unit) : Run σ Unit := do
  let patience := (← get).patience
  loop (repeatWhile (condition engine line) body (patience + 1))

/-- Executes a `for` statement. -/
def runFor (engine : Engine σ) (line : Line) (body : Run σ Unit) : Run σ Unit := do
  Run.setLine line
  let header ← Run.ofExcept (LoopHeader.parse line.params)
  let pattern ← Run.ofExcept (Pattern.parse header.pattern)
  let value ← engine.eval header.expression
  let items ← Run.onHeap (Mem.elements value)
  loop (repeatFor pattern body items)

/-- Binds a function that a script defines. -/
def defineFunction (header : FunctionHeader) (body : List Line) : Run σ Unit := do
  let function : UserFunction := ⟨header.name, header.params, body⟩
  let functions ← Run.ofExcept ((← get).functions.insert header.name (.user function))
  modify fun session => { session with functions }
  Run.note ("DEFINE " ++ header.name ++ " lines " ++ Nat.repr body.length)

/-- Walks past a statement, given the walk through the statements behind it. -/
def walkLine (host : Host σ) (engine : Engine σ) (walk : Block → Mode → List Line → Run σ Passage)
    (block : Block) (mode : Mode) (line : Line) (rest : List Line) : Run σ Passage := do
  let keyword := expandKeyword line.command
  match Role.ofKeyword keyword with
  | .closes closed =>
    if block = closed then return { rest, closing := some line }
    else Run.fault (.unexpectedKeyword keyword)
  | .branch =>
    if block = .conditional then
      let next ← nextBranch engine keyword line mode
      capturing mode [line] (walk block next rest)
    else Run.fault (.unexpectedKeyword keyword)
  | .simple =>
    if mode = .execute then executeSimple host engine keyword line
    capturing mode [line] (walk block mode rest)
  | .opens inner =>
    match mode with
    | .execute =>
      let passage ← match inner with
        | .conditional => do
          let taken ← condition engine line
          walk .conditional (if taken then .execute else .skip) rest
        | .whileLoop => do
          runWhile engine line (discard (walk .whileLoop .execute rest))
          walk .whileLoop .skip rest
        | .forLoop => do
          runFor engine line (discard (walk .forLoop .execute rest))
          walk .forLoop .skip rest
        | _ => do
          Run.setLine line
          let header ← Run.ofExcept (FunctionHeader.parse line.params)
          let passage ← walk .function .capture rest
          defineFunction header passage.captured
          pure passage
      walk block mode passage.rest
    | .capture =>
      let passage ← walk inner .capture rest
      let lines := line :: passage.captured ++ passage.closing.toList
      capturing mode lines (walk block mode passage.rest)
    | _ =>
      let passage ← walk inner (if inner = .conditional then .skipToEnd else .skip) rest
      walk block mode passage.rest

/-- Walks through a block. `fuel` bounds the number of statements. -/
def walkWithin (host : Host σ) (engine : Engine σ) :
    Nat → Block → Mode → List Line → Run σ Passage
  | _, block, _, [] =>
    if block = .script then return { rest := [] } else Run.fault (.unexpectedEnd block)
  | 0, block, _, _ => Run.fault (.unexpectedEnd block)
  | fuel + 1, block, mode, line :: rest => do
    Run.checkPatience
    walkLine host engine (walkWithin host engine fuel) block mode line rest

/-- Walks through a block up to its end. Each step leaves fewer statements. -/
def walk (host : Host σ) (engine : Engine σ) (block : Block) (mode : Mode) (lines : List Line) :
    Run σ Passage :=
  walkWithin host engine lines.length block mode lines

/-- Executes the statements of a script or a body. -/
def runLines (host : Host σ) (engine : Engine σ) (lines : List Line) : Run σ Unit :=
  discard (walk host engine .script .execute lines)

end Vimlet
