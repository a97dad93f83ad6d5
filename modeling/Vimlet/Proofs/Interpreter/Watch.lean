import Vimlet.Proofs.Interpreter.Congruence

/-!
# Watching the interpreter

A watch is shown every statement, expression, handler and signal, with what is active around it. A
relation that the steps of the watched interpreter and the plain one respect holds of everything
that they run. So a property of all dispatched statements can be stated as one of watches: a watch
that acts only where the property fails changes nothing.
-/

namespace Vimlet

open Run

variable {σ : Type}
variable {session after : Session σ} {host : Host σ}

/-- Something that statements run inside of. -/
inductive Activation where
  /-- A call of a user function. -/
  | call
  /-- A `while` or a `for` statement. -/
  | loop
  /-- An iteration of a `for` statement. -/
  | iteration
  /-- The condition of a `while` statement. -/
  | condition
  | silent
  | unsilent
deriving DecidableEq, Repr

/-- What is active, the innermost first. -/
abbrev Activity := List Activation

variable {related : Activity → Relation σ}

/-- What is done in between, unless it is nothing. -/
structure Watch (σ : Type) where
  /-- Before a statement is dispatched. -/
  line : Activity → Line → Run σ Unit := fun _ _ => pure ()
  /-- Before an expression is evaluated. -/
  expression : Activity → String → Run σ Unit := fun _ _ => pure ()
  /-- Before a handler of the host runs. -/
  handler : Activity → Run σ Unit := fun _ => pure ()
  /-- Before a signal is raised. -/
  signal : Activity → Stop → Run σ Unit := fun _ _ => pure ()

/-- A statement with this keyword raises the signal. -/
def Stop.raisedBy (keyword : String) : Stop → Bool
  | .returning _ => keyword == "return"
  | .breaking => keyword == "break"
  | .continuing => keyword == "continue"
  | .fault _ | .internal | .tooDeep => false

namespace Watch

variable {α : Type} (watch : Watch σ) (active : Activity)

/-- Shows the watch how a computation stops, if it is in one of some ways. -/
def shown (raised : Stop → Bool) (act : Run σ α) : Run σ α := do
  match ← attempt act with
  | .ok value => return value
  | .error stop =>
    if raised stop then watch.signal active stop
    throw stop

/-- Shows the watch that a handler runs, and the signal that it ends with. -/
def guard ⦃α : Type⦄ (act : Run σ α) : Run σ α := do
  watch.handler active
  watch.shown active Stop.isSignal act

variable {raised : Stop → Bool}

theorem shown_ok {act : Run σ α} {value} (ended : act session = .ok value after) :
    watch.shown active raised act session = .ok value after := by
  rw [shown, bind_ok (attempt_ok ended)]
  rfl

theorem shown_error {act : Run σ α} {stop} (ended : act session = .error stop after) :
    watch.shown active raised act session =
      if raised stop then (do watch.signal active stop; throw stop) after
      else .error stop after := by
  rw [shown, bind_ok (attempt_error ended)]
  dsimp only
  split <;> rfl

theorem shown_of_not_raised (never : ∀ stop, raised stop = false) (act : Run σ α) :
    watch.shown active raised act = act := by
  funext session
  cases ended : act session with
  | ok value after => exact watch.shown_ok active ended
  | error stop after =>
    rw [watch.shown_error active ended, never]
    rfl

end Watch

/-! ### The watched interpreter -/

/-- Leaves a function with the value of the parameters, if one is active. -/
def executeReturn (engine : Engine σ) (line : Line) : Run σ Unit := do
  if (← get).functionDepth == 0 then fault (.unexpectedKeyword "return")
  else if Text.allBlank line.params.toList then throw (.returning .nil)
  else throw (.returning (← engine.eval line.params))

/-- The value of the parameters of a `return` statement. -/
def returnValue (engine : Engine σ) (line : Line) : Run σ Value :=
  if Text.allBlank line.params.toList then pure .nil else engine.eval line.params

/-- Leaves a loop or an iteration, if a loop is active. -/
def executeLeave (keyword : String) (stop : Stop) : Run σ Unit := do
  if (← get).loopDepth == 0 then fault (.unexpectedKeyword keyword) else throw stop

theorem executeReturn_of_none (none_active : session.functionDepth = 0) (engine : Engine σ)
    (line : Line) :
    executeReturn engine line session = .error (.fault (.unexpectedKeyword "return")) session := by
  simp only [executeReturn, get_bind, none_active, BEq.rfl, if_pos]
  rfl

theorem executeReturn_of_active (some_active : session.functionDepth ≠ 0) (engine : Engine σ)
    (line : Line) :
    executeReturn engine line session =
      (returnValue engine line >>= fun value => throw (.returning value) : Run σ Unit) session := by
  simp only [executeReturn, returnValue, get_bind, beq_iff_eq, some_active, if_neg,
    not_false_eq_true]
  split <;> rfl

theorem executeLeave_of_none (none_active : session.loopDepth = 0) (keyword : String)
    (stop : Stop) :
    executeLeave keyword stop session = .error (.fault (.unexpectedKeyword keyword)) session := by
  simp only [executeLeave, get_bind, none_active, BEq.rfl, if_pos]
  rfl

theorem executeLeave_of_active (some_active : session.loopDepth ≠ 0) (keyword : String)
    (stop : Stop) : executeLeave keyword stop session = .error stop session := by
  simp only [executeLeave, get_bind, beq_iff_eq, some_active, if_neg, not_false_eq_true]
  rfl

/-- What is active around the statement that is a parameter of a statement. -/
def Activity.inside (keyword : String) (active : Activity) : Activity :=
  match keyword with
  | "silent" => .silent :: active
  | "unsilent" => .unsilent :: active
  | _ => active

def executeWatched (host : Host σ) (watch : Watch σ) (engine : Activity → Engine σ)
    (active : Activity) (keyword : String) (line : Line) : Run σ Unit :=
  watch.shown active (Stop.raisedBy keyword)
    (executeSimple (host.guarded (watch.guard active)) (engine (active.inside keyword)) keyword
      line)

theorem executeWatched_of_quiet (host : Host σ) (watch : Watch σ) (engine : Activity → Engine σ)
    (active : Activity) {keyword} (line : Line) (not_return : keyword ≠ "return")
    (not_break : keyword ≠ "break") (not_continue : keyword ≠ "continue") :
    executeWatched host watch engine active keyword line =
      executeSimple (host.guarded (watch.guard active)) (engine (active.inside keyword)) keyword
        line := by
  refine watch.shown_of_not_raised active (fun stop => ?_) _
  cases stop <;> simp [Stop.raisedBy, not_return, not_break, not_continue]

def walkWatched (host : Host σ) (watch : Watch σ) (engine : Activity → Engine σ) :
    Nat → Activity → Block → Mode → List Line → Run σ Passage
  | _, _, block, _, [] =>
    if block = .script then return { rest := [] } else fault (.unexpectedEnd block)
  | 0, _, block, _, _ => fault (.unexpectedEnd block)
  | fuel + 1, active, block, mode, line :: rest => do
    let walk := walkWatched host watch engine fuel
    let keyword := expandKeyword line.command
    watch.line active line
    Run.checkPatience
    match Role.ofKeyword keyword with
    | .closes closed =>
      if block = closed then return { rest, closing := some line }
      else fault (.unexpectedKeyword keyword)
    | .branch =>
      if block = .conditional then
        let next ← nextBranch (engine active) keyword line mode
        capturing mode [line] (walk active block next rest)
      else fault (.unexpectedKeyword keyword)
    | .simple =>
      if mode = .execute then executeWatched host watch engine active keyword line
      capturing mode [line] (walk active block mode rest)
    | .opens inner =>
      match mode with
      | .execute =>
        let passage ← match inner with
          | .conditional => do
            let taken ← condition (engine active) line
            walk active .conditional (if taken then .execute else .skip) rest
          | .whileLoop => do
            runWhile (engine (.condition :: .loop :: active)) line
              (discard (walk (.loop :: active) .whileLoop .execute rest))
            walk active .whileLoop .skip rest
          | .forLoop => do
            runFor (engine active) line
              (discard (walk (.iteration :: .loop :: active) .forLoop .execute rest))
            walk active .forLoop .skip rest
          | _ => do
            Run.setLine line
            let header ← ofExcept (FunctionHeader.parse line.params)
            let passage ← walk active .function .capture rest
            defineFunction header passage.captured
            pure passage
        walk active block mode passage.rest
      | .capture =>
        let passage ← walk active inner .capture rest
        let lines := line :: passage.captured ++ passage.closing.toList
        capturing mode lines (walk active block mode passage.rest)
      | _ =>
        let passage ←
          walk active inner (if inner = .conditional then .skipToEnd else .skip) rest
        walk active block mode passage.rest

/-- Calls a function by name, a user function with an engine of its own. -/
def callWatched (host : Host σ) (engine inner : Engine σ) : String → List Value → Run σ Value :=
  callWith host engine (Builtin.apply engine) (callUser inner)

/-- The watched engine that allows a number of levels of nesting, inside of what is active. -/
def Engine.watched (host : Host σ) (watch : Watch σ) : Nat → Activity → Engine σ
  | 0, _ => exhausted
  | depth + 1, active =>
    let inner := Engine.watched host watch depth
    { eval := fun text => do
        watch.expression active text
        evaluate host (inner active) text
      call := callWatched (host.guarded (watch.guard active)) (inner active)
        (inner (.call :: active))
      run := fun lines =>
        discard (walkWatched host watch inner lines.length active .script .execute lines) }

/-! ### Relations between the watched interpreter and the plain one -/

/-- Relations, one for each activity, that hold between watched and plain evaluations as soon as
they hold of what these run. -/
structure CallCongruence (host : Host σ) (watch : Watch σ)
    (related : Activity → Relation σ) : Prop where
  steps (active : Activity) : Congruence host (watch.guard active) (related active)
  call {active act act'} :
    related (.call :: active) act act' → related active (inFunction act) (inFunction act')
  silent {active} (bang : Bool) {act act'} : related (.silent :: active) act act' →
    related active (inSilence host bang act) (inSilence host bang act')
  unsilent {active act act'} : related (.unsilent :: active) act act' →
    related active (outOfSilence host act) (outOfSilence host act')
  executeReturn {active engine engine'} (line : Line) :
    related active (engine.eval line.params) (engine'.eval line.params) →
    related active (watch.shown active (Stop.raisedBy "return") (executeReturn engine line))
      (executeReturn engine' line)
  executeBreak (active : Activity) :
    related active (watch.shown active (Stop.raisedBy "break") (executeLeave "break" .breaking))
      (executeLeave "break" .breaking)
  executeContinue (active : Activity) :
    related active
      (watch.shown active (Stop.raisedBy "continue") (executeLeave "continue" .continuing))
      (executeLeave "continue" .continuing)

/-- Relations, one for each activity, that hold between watched and plain walks as well. -/
structure WalkCongruence (host : Host σ) (watch : Watch σ)
    (related : Activity → Relation σ) : Prop extends CallCongruence host watch related where
  line (active : Activity) (line : Line) : related active (watch.line active line) (pure ())
  expression (active : Activity) (text : String) :
    related active (watch.expression active text) (pure ())
  checkPatience (active : Activity) : related active Run.checkPatience Run.checkPatience
  setLine (active : Activity) (line : Line) : related active (Run.setLine line) (Run.setLine line)
  define (active : Activity) (header : FunctionHeader) (body : List Line) :
    related active (defineFunction header body) (defineFunction header body)
  whileLoop {active engine engine'} (line : Line) {body body'} :
    related (.condition :: .loop :: active) (condition engine line) (condition engine' line) →
    related (.loop :: active) body body' →
    related active (runWhile engine line body) (runWhile engine' line body')
  forLoop {active pattern body body'} (items : List Value) :
    (∀ item, related (.iteration :: .loop :: active) (do bindPattern declare pattern item; body)
      (do bindPattern declare pattern item; body')) →
    related active (loop (repeatFor pattern body items)) (loop (repeatFor pattern body' items))

/-- A relation that holds of repetitions whose conditions, iterations and frames are related. -/
structure Repetition (asks body frame related : Relation σ) : Prop where
  pure : related (pure () : Run σ Unit) (pure ())
  bind {α β act act'} {next next' : α → Run σ β} :
    related act act' → (∀ value, related (next value) (next' value)) →
    related (act >>= next) (act' >>= next')
  late : related (do fault (.timeOut (← get).timeout) : Run σ Unit)
    (do fault (.timeOut (← get).timeout))
  checkPatience : related (Run.checkPatience : Run σ Unit) Run.checkPatience
  asked {act act' : Run σ Bool} : asks act act' → related act act'
  iterated {act act'} : body act act' → related (iteration act) (iteration act')
  framed {act act'} : frame act act' → related (inFrame act) (inFrame act')

namespace Repetition

variable {asks body frame related : Relation σ}
  (repetition : Repetition asks body frame related) {act act' : Run σ Unit}
include repetition

theorem repeatWhile {holds holds'} (asked : asks holds holds') (acts : body act act') (fuel : Nat) :
    related (repeatWhile holds act fuel) (repeatWhile holds' act' fuel) := by
  induction fuel with
  | zero => exact repetition.late
  | succ fuel ih =>
    refine repetition.bind (repetition.asked asked) fun answer => ?_
    cases answer with
    | false => exact repetition.pure
    | true =>
      refine repetition.bind repetition.checkPatience fun _ => ?_
      exact repetition.bind (repetition.iterated acts) fun _ => ih

theorem repeatFor {pattern}
    (acts : ∀ item, frame (do bindPattern declare pattern item; act)
      (do bindPattern declare pattern item; act')) (items : List Value) :
    related (repeatFor pattern act items) (repeatFor pattern act' items) := by
  induction items with
  | nil => exact repetition.pure
  | cons item rest ih =>
    rw [repeatFor_cons, repeatFor_cons]
    exact repetition.bind (repetition.framed (acts item)) fun _ => ih

end Repetition

namespace CallCongruence

variable {watch : Watch σ} (cong : CallCongruence host watch related)
include cong

theorem runBody {active engine engine'} (function : UserFunction) (args : List Value)
    (runs : related active (engine.run function.body) (engine'.run function.body)) :
    related active (runBody engine function args) (runBody engine' function args) := by
  have steps := cong.steps active
  exact steps.bind (steps.bindAll steps.declare _) fun _ => runs

theorem callUser {active engine engine'} (function : UserFunction) (args : List Value)
    (runs : related (.call :: active) (engine.run function.body) (engine'.run function.body)) :
    related active (callUser engine function args) (callUser engine' function args) := by
  have steps := cong.steps active
  rw [callUser_eq, callUser_eq]
  split
  · exact steps.fault _
  · refine steps.inspect (fun _ _ => rfl) fun session => ?_
    have inside := cong.call (cong.runBody function args runs)
    dsimp only
    split
    · exact steps.bind (steps.note _) fun _ => inside
    · exact inside

theorem callWatched {active engine engine' inner}
    (engines : engine.Related (related active) engine')
    (bodies : ∀ lines, related (.call :: active) (inner.run lines) (engine'.run lines))
    (name : String) (args : List Value) :
    related active (callWatched (host.guarded (watch.guard active)) engine inner name args)
      (callByName host engine' name args) := by
  have steps := cong.steps active
  refine steps.inspect (fun _ _ => rfl) fun session => ?_
  refine steps.bind (steps.ofExcept _) fun found => ?_
  split
  · refine steps.bind (steps.checkArguments _ _) fun _ => ?_
    exact steps.applyBuiltin engines _ _
  · rename_i signature id
    cases signature with
    | none => exact steps.bind (steps.pure _) fun _ => steps.function _ _
    | some signature =>
      exact steps.bind (steps.checkArguments _ _) fun _ => steps.function _ _
  · exact cong.callUser _ _ (bodies _)
  · refine steps.bind (steps.ofExcept _) fun bound => ?_
    rcases bound with _ | value
    · exact steps.fault _
    · cases value with
      | function ref => exact steps.callRef _ _ (engines.call _ _)
      | _ => exact steps.fault _

theorem executeWatched {engine : Activity → Engine σ} {engine'}
    (engines : ∀ active, (engine active).Related (related active) engine') (active : Activity)
    (keyword : String) {line} (placed : related active (Run.setLine line) (Run.setLine line)) :
    related active (executeWatched host watch engine active keyword line)
      (executeSimple host engine' keyword line) := by
  have steps := cong.steps active
  -- the watch is shown nothing before the statement itself
  have begun {raised : Stop → Bool} {act act' : Run σ Unit} (message : String)
      (acts : related active (watch.shown active raised act) act') :
      related active (watch.shown active raised (do Run.setLine line; note message; act))
        (do Run.setLine line; note message; act') :=
    steps.bind placed fun _ => steps.bind (steps.note message) fun _ => acts
  by_cases not_return : keyword = "return"
  · subst not_return
    exact begun _ (cong.executeReturn line ((engines active).eval _))
  by_cases not_break : keyword = "break"
  · subst not_break
    exact begun _ (cong.executeBreak active)
  by_cases not_continue : keyword = "continue"
  · subst not_continue
    exact begun _ (cong.executeContinue active)
  rw [executeWatched_of_quiet host watch engine active line not_return not_break not_continue]
  refine steps.bind placed fun _ => steps.bind (steps.note _) fun _ => ?_
  split
  · exact steps.executeLet (engines active) line
  · rw [executeSilent_eq, executeSilent_eq]
    exact cong.silent _ ((cong.steps _).runNested (engines _) line)
  · rw [executeUnsilent_eq, executeUnsilent_eq]
    exact cong.unsilent ((cong.steps _).runNested (engines _) line)
  · exact steps.bind ((engines active).eval _) fun _ => steps.executeText (engines active) _
  · exact steps.fault _
  · exact steps.fault _
  · contradiction
  · contradiction
  · contradiction
  · rename_i not_silent not_unsilent _ _ _ _ _ _
    have inside_eq : active.inside keyword = active := by
      unfold Activity.inside
      split
      · contradiction
      · contradiction
      · rfl
    rw [inside_eq]
    refine steps.inspect (fun _ _ => rfl) fun session => ?_
    split
    · exact steps.runCommand (engines active) _ line
    · exact steps.fault _

end CallCongruence

namespace WalkCongruence

variable {watch : Watch σ} (cong : WalkCongruence host watch related)
include cong

theorem condition {active engine engine'} (line : Line)
    (evals : ∀ text, related active (engine.eval text) (engine'.eval text)) :
    related active (condition engine line) (condition engine' line) := by
  have steps := cong.steps active
  refine steps.bind (cong.setLine active line) fun _ => steps.bind (evals _) fun value => ?_
  exact steps.inspect (fun _ _ => rfl) fun _ => steps.pure _

theorem nextBranch {active engine engine'}
    (evals : ∀ text, related active (engine.eval text) (engine'.eval text)) (keyword : String)
    (line : Line) (mode : Mode) :
    related active (nextBranch engine keyword line mode)
      (nextBranch engine' keyword line mode) := by
  have steps := cong.steps active
  cases mode with
  | capture | execute | skipToEnd => exact steps.pure _
  | skip =>
    simp only [Vimlet.nextBranch]
    split
    · exact steps.pure _
    · refine steps.bind (cong.condition line evals) fun taken => ?_
      split
      · exact steps.pure _
      · exact steps.pure _

theorem runFor {active engine engine'} (line : Line) {body body'}
    (evals : ∀ text, related active (engine.eval text) (engine'.eval text))
    (bodies : related (.iteration :: .loop :: active) body body') :
    related active (runFor engine line body) (runFor engine' line body') := by
  have steps := cong.steps active
  refine steps.bind (cong.setLine active line) fun _ => ?_
  refine steps.bind (steps.ofExcept _) fun header => steps.bind (steps.ofExcept _) fun pattern => ?_
  refine steps.bind (evals _) fun value => ?_
  refine steps.bind (steps.onHeap (.elements _)) fun items => cong.forLoop items fun item => ?_
  have inside := cong.steps (.iteration :: .loop :: active)
  exact inside.bind (inside.bindPattern inside.declare pattern item) fun _ => bodies

theorem capturing {active} (mode : Mode) (lines : List Line) {walk walk'}
    (walks : related active walk walk') :
    related active (capturing mode lines walk) (capturing mode lines walk') := by
  unfold Vimlet.capturing
  split
  · exact (cong.steps active).bind walks fun _ => (cong.steps active).pure _
  · exact walks

theorem walkWatched {engine : Activity → Engine σ} {engine'}
    (engines : ∀ active, (engine active).Related (related active) engine') (fuel : Nat)
    (active : Activity) (block : Block) (mode : Mode) (lines : List Line) :
    related active (walkWatched host watch engine fuel active block mode lines)
      (walkWithin host engine' fuel block mode lines) := by
  have evals (active : Activity) := (engines active).eval
  induction fuel generalizing active block mode lines with
  | zero =>
    have steps := cong.steps active
    cases lines with
    | nil =>
      unfold Vimlet.walkWatched walkWithin
      split
      · exact steps.pure _
      · exact steps.fault _
    | cons line rest => exact steps.fault _
  | succ fuel ih =>
    have steps := cong.steps active
    cases lines with
    | nil =>
      unfold Vimlet.walkWatched walkWithin
      split
      · exact steps.pure _
      · exact steps.fault _
    | cons line rest =>
      -- nothing stands for the watch in the plain walk
      rw [walkWithin, ← pure_bind () fun _ => Run.checkPatience >>= _]
      simp only [Vimlet.walkWatched, walkLine]
      refine steps.bind (cong.line active line) fun _ => ?_
      refine steps.bind (cong.checkPatience active) fun _ => ?_
      generalize Role.ofKeyword (expandKeyword line.command) = role
      cases role with
      | closes closed =>
        dsimp only
        split
        · exact steps.pure _
        · exact steps.fault _
      | branch =>
        dsimp only
        split
        · refine steps.bind (cong.nextBranch (evals active) _ _ _) fun next => ?_
          exact cong.capturing _ _ (ih _ _ _ _)
        · exact steps.fault _
      | simple =>
        dsimp only
        split
        · refine steps.bind (cong.executeWatched engines active _
            (cong.setLine active _)) fun _ => ?_
          exact cong.capturing _ _ (ih _ _ _ _)
        · exact cong.capturing _ _ (ih _ _ _ _)
      | opens inner =>
        cases mode with
        | execute =>
          cases inner with
          | conditional =>
            refine steps.bind (cong.condition _ (evals active)) fun taken => ?_
            exact steps.bind (ih _ _ _ _) fun passage => ih _ _ _ _
          | whileLoop =>
            refine steps.bind (cong.whileLoop _ (cong.condition _ (evals _))
              ((cong.steps _).discard (ih _ _ _ _))) fun _ => ?_
            exact steps.bind (ih _ _ _ _) fun passage => ih _ _ _ _
          | forLoop =>
            refine steps.bind (cong.runFor _ (evals active)
              ((cong.steps _).discard (ih _ _ _ _))) fun _ => ?_
            exact steps.bind (ih _ _ _ _) fun passage => ih _ _ _ _
          | script | function =>
            refine steps.bind (cong.setLine active _) fun _ => ?_
            refine steps.bind (steps.ofExcept _) fun header => ?_
            refine steps.bind (ih _ _ _ _) fun passage => ?_
            refine steps.bind (cong.define active _ _) fun _ => ?_
            exact steps.bind (steps.pure _) fun passage => ih _ _ _ _
        | capture =>
          refine steps.bind (ih _ _ _ _) fun passage => ?_
          exact cong.capturing _ _ (ih _ _ _ _)
        | skip | skipToEnd => exact steps.bind (ih _ _ _ _) fun passage => ih _ _ _ _

/-- What the watched engine does is related to what the plain one does, at any depth of nesting. -/
theorem engine (depth : Nat) (active : Activity) :
    (Engine.watched host watch depth active).Related (related active)
      (Engine.ofDepth host depth) := by
  induction depth generalizing active with
  | zero =>
    have steps := cong.steps active
    exact ⟨fun _ => steps.throw rfl, fun _ _ => steps.throw rfl, fun _ => steps.throw rfl⟩
  | succ depth ih =>
    have steps := cong.steps active
    refine ⟨fun text => ?_, cong.callWatched (ih active) (ih _).run, fun lines =>
      steps.discard (cong.walkWatched ih _ _ _ _ lines)⟩
    change related active _ (evaluate host (Engine.ofDepth host depth) text)
    rw [← pure_bind () fun _ => evaluate host (Engine.ofDepth host depth) text]
    exact steps.bind (cong.expression active text) fun _ => steps.evaluate (ih active) text

end WalkCongruence

/-! ### Requests -/

/-- What a host asks a session for. -/
inductive Request where
  | run (script : String)
  | eval (text : String)
  | call (name : String) (args : List Value)

namespace Request

/-- Meets a request with an engine; a script has no value. -/
def performWith (engine : Engine σ) : Request → Run σ Value
  | .run script => do
    enclosed (finishing (engine.run (scriptLines script)))
    return .nil
  | .eval text => enclosed (engine.eval text)
  | .call name args => enclosed (engine.call name args)

def perform (host : Host σ) : Request → Run σ Value
  | .run script => do
    Vimlet.run host script
    return .nil
  | .eval text => Vimlet.eval host text
  | .call name args => callFunction host name args

def watched (host : Host σ) (watch : Watch σ) (request : Request) : Run σ Value :=
  request.performWith (Engine.watched host watch maxNesting [])

theorem perform_eq (host : Host σ) (request : Request) :
    request.perform host = request.performWith (engine host) := by
  cases request <;> rfl

/-! ### What a request comes by -/

/-- A property of every statement that a request dispatches, what is active then, and the session: a
watch that acts only where it fails changes nothing. -/
def EveryLine (host : Host σ) (request : Request) (session : Session σ)
    (property : Activity → Line → Session σ → Prop) : Prop :=
  ∀ watcher : Activity → Line → Run σ Unit,
    (∀ active line there, property active line there →
      watcher active line there = .ok () there) →
    request.watched host { line := watcher } session = request.perform host session

/-- A property of every session in which a request runs a handler of the host. -/
def EveryHandler (host : Host σ) (request : Request) (session : Session σ)
    (property : Activity → Session σ → Prop) : Prop :=
  ∀ watcher : Activity → Run σ Unit,
    (∀ active there, property active there → watcher active there = .ok () there) →
    request.watched host { handler := watcher } session = request.perform host session

/-- A property of every signal that a request raises. -/
def EverySignal (host : Host σ) (request : Request) (session : Session σ)
    (property : Activity → Stop → Session σ → Prop) : Prop :=
  ∀ watcher : Activity → Stop → Run σ Unit,
    (∀ active stop there, property active stop there →
      watcher active stop there = .ok () there) →
    request.watched host { signal := watcher } session = request.perform host session

end Request

end Vimlet
