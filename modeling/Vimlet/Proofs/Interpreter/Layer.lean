import Vimlet.Interpreter
import Vimlet.Proofs.Value.Ordinary

/-!
# What stands around statements

Loops, functions, `silent` statements, callbacks and runs are given as the session that they start
their inside in and what they make of its ending.
-/

namespace Vimlet

open Run Session

variable {σ α : Type}

/-- The session with a message in its trace, if there is one. -/
def Session.noted (message : String) (session : Session σ) : Session σ :=
  if session.debug then { session with trace := message :: session.trace } else session

section Noted

variable (message : String) (session : Session σ)

@[simp]
theorem Session.noted_vars : (session.noted message).vars = session.vars := by
  unfold noted; split <;> rfl

@[simp]
theorem Session.noted_functions : (session.noted message).functions = session.functions := by
  unfold noted; split <;> rfl

@[simp]
theorem Session.noted_functionDepth :
    (session.noted message).functionDepth = session.functionDepth := by
  unfold noted; split <;> rfl

@[simp]
theorem Session.noted_maxFunctionDepth :
    (session.noted message).maxFunctionDepth = session.maxFunctionDepth := by
  unfold noted; split <;> rfl

@[simp]
theorem Session.noted_loopDepth : (session.noted message).loopDepth = session.loopDepth := by
  unfold noted; split <;> rfl

end Noted

/-! ### Loops -/

/-- What is left of an iteration after a `continue`. -/
def afterIteration : Ending σ Unit → Ending σ Unit
  | .error .continuing session => .ok () session
  | ending => ending

/-- What is left of a loop after a `break`. -/
def afterLoop : Ending σ Unit → Ending σ Unit
  | .error .breaking session => .ok () session
  | ending => ending

theorem iteration_eq (body : Run σ Unit) (session : Session σ) :
    iteration body session = afterIteration (body session) :=
  attempt_bind (fun _ _ => rfl) fun stop _ => by cases stop <;> rfl

def Session.enterLoop (session : Session σ) : Session σ :=
  { session with loopDepth := session.loopDepth + 1 }

def Session.leaveLoop (session : Session σ) : Session σ :=
  { session with loopDepth := session.loopDepth - 1 }

theorem loop_eq (iterations : Run σ Unit) (session : Session σ) :
    loop iterations session =
      onLeft leaveLoop (afterLoop (iterations session.enterLoop)) := by
  change ensure leaveLoop _ session.enterLoop = _
  rw [ensure_eq]
  exact congrArg _ (attempt_bind (fun _ _ => rfl) fun stop _ => by cases stop <;> rfl)

@[simp]
theorem left_afterIteration (ending : Ending σ Unit) :
    left (afterIteration ending) = left ending := by
  rcases ending with _ | ⟨stop, session⟩
  · rfl
  · cases stop <;> rfl

@[simp]
theorem left_afterLoop (ending : Ending σ Unit) : left (afterLoop ending) = left ending := by
  rcases ending with _ | ⟨stop, session⟩
  · rfl
  · cases stop <;> rfl

theorem runWhile_eq (engine : Engine σ) (line : Line) (body : Run σ Unit) (session : Session σ) :
    runWhile engine line body session =
      onLeft leaveLoop (afterLoop (repeatWhile (condition engine line) body
        (session.patience + 1) session.enterLoop)) := by
  rw [runWhile, get_bind, loop_eq]

theorem bindAll_ordinary (bound : List (String × Value)) :
    Ordinary (bindAll declare bound : Run σ Unit) := by
  induction bound with
  | nil => exact .pure ()
  | cons first rest ih => exact .bind (declare_ordinary _ _) fun _ => ih

theorem bindPattern_ordinary (pattern : Pattern) (value : Value) :
    Ordinary (bindPattern declare pattern value : Run σ Unit) := by
  refine .inspect fun session => .bind (bindAll_ordinary _) fun _ => ?_
  split
  · exact .throw rfl
  · exact .pure ()

/-- Runs one iteration of a `for` statement in a frame of its own. -/
def inFrame (act : Run σ Unit) : Run σ Unit := fun session =>
  onLeft leave (afterIteration (act (session.enter false)))

theorem repeatFor_cons (pattern : Pattern) (body : Run σ Unit) (item : Value) (rest : List Value) :
    repeatFor pattern body (item :: rest) = (do
      inFrame (do bindPattern declare pattern item; body)
      repeatFor pattern body rest) := by
  have framed (session : Session σ) :
      (bindPattern declare pattern item >>= fun _ => iteration body) session =
        afterIteration ((bindPattern declare pattern item >>= fun _ => body) session) := by
    cases ended : bindPattern declare pattern item session with
    | ok value after => rw [bind_ok ended, bind_ok ended, iteration_eq]
    | error stop after =>
      rw [bind_error ended, bind_error ended]
      have ordinary := bindPattern_ordinary pattern item ended
      cases stop <;> first | rfl | cases ordinary
  funext session
  unfold inFrame
  simp only [← framed, ← ensure_eq]
  rfl

/-! ### Functions -/

/-- What a call makes of the ending of its body. -/
def afterCall : Ending σ Unit → Ending σ Value
  | .ok _ session => .ok .nil session
  | .error (.returning value) session => .ok value session
  | .error stop session => .error stop session

theorem returned_eq (body : Run σ Unit) (session : Session σ) :
    returned body session = afterCall (body session) :=
  attempt_bind (fun _ _ => rfl) fun stop _ => by cases stop <;> rfl

@[simp]
theorem left_afterCall (ending : Ending σ Unit) : left (afterCall ending) = left ending := by
  rcases ending with _ | ⟨stop, session⟩
  · rfl
  · cases stop <;> rfl

/-- Runs the body of a function with its parameters declared. -/
def runBody (engine : Engine σ) (function : UserFunction) (args : List Value) : Run σ Unit := do
  bindAll declare (function.params.zip args)
  engine.run function.body

/-- What the trace says about a call. -/
def callNote (function : UserFunction) (args : List Value) : String :=
  "CALL " ++ function.name ++ " argc " ++ Nat.repr args.length

/-- Runs the body of a function, unless functions nest too deep. -/
def inFunction (body : Run σ Unit) : Run σ Value := fun session =>
  if (session.functionDepth : Int) < session.maxFunctionDepth then
    onLeft (leaveFunction session.loopDepth) (afterCall (body session.enterFunction))
  else .error (.fault (.callDepthExceeded session.maxFunctionDepth)) session

theorem callUser_eq (engine : Engine σ) (function : UserFunction) (args : List Value) :
    callUser engine function args =
      if args.length ≠ function.params.length then
        Run.fault (.wrongArgCount function.params.length args.length)
      else (do
        let session ← get
        if (session.functionDepth : Int) < session.maxFunctionDepth then
          note (callNote function args)
        inFunction (runBody engine function args)) := by
  funext session
  have opened : callUser engine function args session =
      (if args.length ≠ function.params.length then
        Run.fault (.wrongArgCount function.params.length args.length)
      else if session.maxFunctionDepth ≤ session.functionDepth then
        Run.fault (.callDepthExceeded session.maxFunctionDepth)
      else do
        note (callNote function args)
        modify enterFunction
        ensure (leaveFunction session.loopDepth)
          (returned (runBody engine function args)) : Run σ Value) session := rfl
  rw [opened]
  by_cases count : args.length ≠ function.params.length
  · rw [if_pos count, if_pos count]
  · rw [if_neg count, if_neg count, get_bind]
    by_cases shallow : (session.functionDepth : Int) < session.maxFunctionDepth
    · rw [if_neg (by omega), if_pos shallow]
      change _ = inFunction _ (session.noted (callNote function args))
      rw [inFunction, if_pos (by simpa using shallow), ← returned_eq, ← ensure_eq, noted_loopDepth]
      rfl
    · rw [if_pos (by omega), if_neg shallow]
      exact (if_neg shallow).symm

/-- A call stops before its body, or it runs the body inside of one more function. -/
theorem callUser_cases (function : UserFunction) (args : List Value) (session : Session σ) :
    (∃ cause, ∀ engine : Engine σ,
        callUser engine function args session = .error (.fault cause) session) ∨
      ((session.functionDepth : Int) < session.maxFunctionDepth ∧
        ∀ engine, callUser engine function args session =
          onLeft (leaveFunction session.loopDepth)
            (afterCall (runBody engine function args
              (session.noted (callNote function args)).enterFunction))) := by
  simp only [callUser_eq]
  split
  · exact .inl ⟨_, fun _ => rfl⟩
  · simp only [get_bind]
    split
    · rename_i shallow
      refine .inr ⟨shallow, fun engine => ?_⟩
      change inFunction _ (session.noted _) = _
      rw [inFunction, if_pos (by simpa using shallow), noted_loopDepth]
    · exact .inl ⟨_, fun _ => if_neg ‹_›⟩

theorem callRef_of_none {engine : Engine σ} {ref} (anywhere : ref.script = none) (args : List Value) :
    engine.callRef ref args = engine.call ref.name args := by
  simp only [Engine.callRef, anywhere]

def inScript (id : ScopeId) (act : Run σ α) : Run σ α := fun session =>
  onLeft (·.setScript session.functions.scripts.active) (act (session.setScript (some id)))

theorem callRef_of_some {engine : Engine σ} {ref id} (placed : ref.script = some id)
    (args : List Value) : engine.callRef ref args = inScript id (engine.call ref.name args) := by
  funext session
  simp only [Engine.callRef, placed]
  exact ensure_eq _

/-- The value that a callback finds in a builtin variable. -/
def Session.builtin (session : Session σ) (name : String) : Value :=
  (session.vars.builtins.get? name).getD .nil

def inCallback (key value : Value) (act : Run σ α) : Run σ α := fun session =>
  onLeft (setCallback (session.builtin "key") (session.builtin "val"))
    (act (session.setCallback key value))

theorem runCallback_cases (callback key value : Value) :
    (∃ ref, ∀ engine : Engine σ,
        runCallback engine callback key value = engine.callRef ref [key, value]) ∨
      ∀ engine : Engine σ, runCallback engine callback key value =
        inCallback key value (do engine.eval ((← get).heap.text callback)) := by
  cases callback with
  | function ref => exact .inl ⟨ref, fun _ => rfl⟩
  | _ => exact .inr fun engine => funext fun session => ensure_eq _

/-! ### Silence -/

/-- What a `silent` statement makes of the ending of its inside. -/
def afterSwallow (bang : Bool) : Ending σ Unit → Ending σ Unit
  | .error (.fault cause) session =>
    if bang && !cause.isControl then
      .ok () (session.noted ("SILENT! swallowed " ++ cause.title ++ " " ++ cause.message))
    else .error (.fault cause) session
  | ending => ending

theorem swallow_eq (bang : Bool) (act : Run σ Unit) (session : Session σ) :
    swallow bang act session = afterSwallow bang (act session) := by
  refine attempt_bind (fun _ _ => rfl) fun stop _ => ?_
  cases stop with
  | fault cause =>
    dsimp only [afterSwallow]
    split <;> rfl
  | _ => rfl

/-- Runs something one level of silence deeper. -/
def inSilence (host : Host σ) (bang : Bool) (act : Run σ Unit) : Run σ Unit := fun session =>
  onLeft (fun after => after.setSilence host (after.silence - 1))
    (afterSwallow bang (act (session.setSilence host (session.silence + 1))))

def outOfSilence (host : Host σ) (act : Run σ Unit) : Run σ Unit := fun session =>
  onLeft (·.setSilence host session.silence) (act (session.setSilence host 0))

theorem executeSilent_eq (host : Host σ) (engine : Engine σ) (line : Line) :
    executeSilent host engine line = inSilence host line.bang (runNested engine line) := by
  funext session
  change ensure _ _ _ = _
  rw [ensure_eq, swallow_eq]
  rfl

theorem executeUnsilent_eq (host : Host σ) (engine : Engine σ) (line : Line) :
    executeUnsilent host engine line = outOfSilence host (runNested engine line) :=
  funext fun _ => ensure_eq _

/-! ### Sorting -/

/-- What is left of something that may stop, with a change of the heap then. -/
def afterStop (change : Heap → Heap) : Ending σ α → Ending σ α
  | .ok value session => .ok value session
  | .error stop session => .error stop { session with heap := change session.heap }

/-- Changes the heap if something stops. -/
def onStop (change : Heap → Heap) (act : Run σ α) : Run σ α := fun session =>
  afterStop change (act session)

section Settled

variable {β ε ε' : Type} {act : ExceptT ε (Run σ) α}

/-- A step of a sort as a computation that stops with its reason and changes the heap. -/
def settled (stop : ε → Stop) (change : ε → Heap → Heap) (act : ExceptT ε (Run σ) α) : Run σ α :=
  fun session =>
    match act.run session with
    | .ok (.ok value) after => .ok value after
    | .ok (.error reason) after =>
      .error (stop reason) { after with heap := change reason after.heap }
    | .error stop after => .error stop after

/-- A step of a sort that only stops for a reason. -/
def Answers (act : ExceptT ε (Run σ) α) : Prop :=
  ∀ session, ∃ answer after, act.run session = .ok answer after

variable {stop : ε → Stop} {change : ε → Heap → Heap}

theorem settled_bind (next : α → ExceptT ε (Run σ) β) :
    settled stop change (act >>= next) =
      settled stop change act >>= fun value => settled stop change (next value) := by
  funext session
  change settled stop change (ExceptT.mk (act.run >>= _)) session = _
  cases ended : act.run session with
  | ok answer after =>
    cases answer <;>
      simp only [settled, bind, EStateM.bind, ExceptT.run_mk, ended, ExceptT.bindCont] <;> rfl
  | error stop after => simp only [settled, bind, EStateM.bind, ExceptT.run_mk, ended]

theorem settled_adapt {stop : ε' → Stop} {change : ε' → Heap → Heap} {reason : ε → ε'}
    {more : Heap → Heap} {inner : ε → Heap → Heap} (answers : Answers act)
    (changes : ∀ first heap, change (reason first) heap = more (inner first heap)) :
    settled stop change (act.adapt reason) = onStop more (settled (stop ∘ reason) inner act) := by
  funext session
  obtain ⟨answer, after, ended⟩ := answers session
  have adapted : (act.adapt reason).run session = .ok (answer.mapError reason) after :=
    bind_ok ended
  simp only [settled, onStop, adapted, ended]
  cases answer with
  | ok value => rfl
  | error first => exact congrArg _ (congrArg (fun heap => { after with heap }) (changes first _))

theorem settled_attempt (act : Run σ α) :
    settled id (fun _ => id) (ExceptT.mk (attempt act)) = act := by
  funext session
  cases ended : act session with
  | ok value after => simp only [settled, ExceptT.run_mk, attempt_ok ended]
  | error stop after =>
    simp only [settled, ExceptT.run_mk, attempt_error ended]
    rfl

theorem Answers.attempt (act : Run σ α) : Answers (ExceptT.mk (attempt act)) := by
  intro session
  cases ended : act session with
  | ok value after => exact ⟨_, _, attempt_ok ended⟩
  | error stop after => exact ⟨_, _, attempt_error ended⟩

theorem Answers.bind {next : α → ExceptT ε (Run σ) β} (first : Answers act)
    (second : ∀ value, Answers (next value)) : Answers (act >>= next) := by
  intro session
  obtain ⟨answer, after, ended⟩ := first session
  change ∃ answer left, (act.run >>= _) session = _
  rw [bind_ok ended]
  cases answer with
  | ok value => exact second value after
  | error reason => exact ⟨_, _, rfl⟩

theorem Answers.adapt (answers : Answers act) (reason : ε → ε') : Answers (act.adapt reason) := by
  intro session
  obtain ⟨answer, after, ended⟩ := answers session
  exact ⟨answer.mapError reason, after, bind_ok ended⟩

end Settled

theorem Heap.setList_again (heap : Heap) (cell : Nat) (items : List Value)
    (next : List Value → List Value) :
    (heap.setList cell items).setList cell (next ((heap.setList cell items).list cell)) =
      heap.setList cell (next items) := by
  simp only [setList, list, listCell, Array.getElem?_modify, if_true]
  congr 1
  refine Array.ext_getElem? fun i => ?_
  rw [Array.getElem?_modify, Array.getElem?_modify, Array.getElem?_modify]
  split
  · subst i
    cases heap.lists[cell]? <;> rfl
  · rfl

theorem sortElements_eq (order : Value → Value → Run σ Bool) (cell : Nat) (elements : List Value) :
    sortElements order cell elements =
      settled Sorting.Stopped.stop (fun stopped heap => heap.setList cell stopped.items)
        (Sorting.sort (fun a b => ExceptT.mk (attempt (order a b))) elements) := by
  funext session
  unfold sortElements settled
  generalize (Sorting.sort _ elements : ExceptT _ (Run σ) _) = sort
  cases ended : sort.run session with
  | ok answer after =>
    rw [bind_ok ended]
    cases answer <;> rfl
  | error stop after => exact bind_error ended

/-! ### Runs -/

section Begin

variable (session : Session σ)

theorem Session.begin_heap : session.begin.heap = session.heap := by
  unfold begin; split <;> rfl

theorem Session.begin_host : session.begin.host = session.host := by
  unfold begin; split <;> rfl

theorem Session.begin_vars : session.begin.vars = session.vars := by
  unfold begin; split <;> rfl

theorem Session.begin_functions : session.begin.functions = session.functions := by
  unfold begin; split <;> rfl

end Begin

/-- What is left of a script after a `finish`. -/
def afterScript : Ending σ Unit → Ending σ Unit
  | .error (.fault .exit) session => .ok () (session.noted "EXIT")
  | ending => ending

/-- Lets a `finish` end a script. -/
def finishing (script : Run σ Unit) : Run σ Unit := do
  match ← attempt script with
  | .ok _ => return
  | .error (.fault .exit) => note "EXIT"
  | .error stop => throw stop

theorem finishing_eq (script : Run σ Unit) (session : Session σ) :
    finishing script session = afterScript (script session) := by
  refine attempt_bind (fun _ _ => rfl) fun stop _ => ?_
  cases stop with
  | fault cause => cases cause <;> rfl
  | _ => rfl

/-- What a run makes of the ending of its inside. -/
def afterEnclosed (session : Session σ) : Ending σ α → Ending σ α
  | .error .tooDeep after =>
    if session.runs = 0 then
      .error (.fault (.callDepthExceeded after.maxFunctionDepth))
        { after.unwind session.vars.depth session.functions.depth with runs := session.runs }
    else .error .tooDeep { after with runs := session.runs }
  | ending => onLeft (fun after => { after with runs := session.runs }) ending

theorem enclosed_eq_after (act : Run σ α) (session : Session σ) :
    enclosed act session = afterEnclosed session (act session.begin) := by
  unfold enclosed
  cases act session.begin with
  | ok value after => rfl
  | error stop after => cases stop <;> rfl

/-- A run leaves what its inside leaves. Only an outermost one that nests too deep unwinds it. -/
theorem left_enclosed (act : Run σ α) (session : Session σ) :
    left (enclosed act session) = { left (act session.begin) with runs := session.runs } ∨
      session.runs = 0 ∧ left (enclosed act session) =
        { (left (act session.begin)).unwind session.vars.depth session.functions.depth with
          runs := session.runs } := by
  rw [enclosed_eq_after]
  rcases act session.begin with ⟨value, after⟩ | ⟨stop, after⟩
  · exact .inl rfl
  · cases stop with
    | tooDeep =>
      dsimp only [afterEnclosed]
      split
      · exact .inr ⟨‹_›, rfl⟩
      · exact .inl rfl
    | _ => exact .inl rfl

end Vimlet
