import Vimlet.Proofs.Interpreter.Interruption

/-!
# What lasts through a run

A relation between sessions that each step of the interpreter keeps, and each layer around an inside
that does, holds between the sessions before and after whatever scripts do.
-/

namespace Vimlet

variable {σ α β : Type}
variable {host : Host σ} {lasts : Session σ → Session σ → Prop} {act : Run σ α} {body : Run σ Unit}
  {session : Session σ} {watch : Watch σ}

/-- The session that a computation leaves is in a relation to the one that it starts in. -/
def Kept (lasts : Session σ → Session σ → Prop) (act : Run σ α) : Prop :=
  ∀ session, lasts session (left (act session))

/-- A relation between sessions that lasts through evaluations and simple statements. -/
structure Lasting (host : Host σ) (lasts : Session σ → Session σ → Prop) : Prop where
  refl (session : Session σ) : lasts session session
  trans {first second third} : lasts first second → lasts second third → lasts first third
  heap (session : Session σ) (heap : Heap) : lasts session { session with heap }
  echo (session : Session σ) (message : String) :
    lasts session { session with host := host.echo message session.host }
  trace (session : Session σ) (trace : List String) : lasts session { session with trace }
  assign {session name value vars} :
    session.vars.insert name value = .ok vars → lasts session { session with vars }
  declare {session name value vars} :
    session.vars.declare name value = .ok vars → lasts session { session with vars }
  unlet {session name vars} :
    session.vars.remove? name = .ok (some vars) → lasts session { session with vars }
  script {session after} (id : ScopeId) : lasts (session.setScript (some id)) after →
    lasts session (after.setScript session.functions.scripts.active)
  callback {session after} (key value : Value) : lasts (session.setCallback key value) after →
    lasts session (after.setCallback (session.builtin "key") (session.builtin "val"))
  enclosed {session after} :
    lasts session.begin after → lasts session { after with runs := session.runs }
  unwound {session after} : session.runs = 0 → lasts session.begin after → lasts session
      { after.unwind session.vars.depth session.functions.depth with runs := session.runs }
  call {session after} : (session.functionDepth : Int) < session.maxFunctionDepth →
    lasts session.enterFunction after → lasts session (after.leaveFunction session.loopDepth)
  silent {session after} : lasts (session.setSilence host (session.silence + 1)) after →
    lasts session (after.setSilence host (after.silence - 1))
  unsilent {session after} :
    lasts (session.setSilence host 0) after → lasts session (after.setSilence host session.silence)
  command (id : Nat) (range : LineRange) (bang : Bool) (params : String) :
    Kept lasts (host.command id range bang params)
  function (id : Nat) (args : List Value) : Kept lasts (host.function id args)

/-- A relation between sessions that lasts through blocks as well, around statements that keep it.
-/
structure BlockLasting (host : Host σ) (lasts : Session σ → Session σ → Prop) : Prop
    extends Lasting host lasts where
  patience (session : Session σ) (patience : Nat) : lasts session { session with patience }
  define {session name function functions} :
    session.functions.insert name (.user function) = .ok functions →
    lasts session { session with functions }
  loop {session after} : lasts session.enterLoop after → lasts session after.leaveLoop
  frame {session after} : lasts (session.enter false) after → lasts session after.leave

/-- A relation between sessions that lasts through every statement. -/
structure WalkLasting (host : Host σ) (lasts : Session σ → Session σ → Prop) : Prop
    extends BlockLasting host lasts where
  line (session : Session σ) (line : Line) :
    lasts session { session with currentLine := some line }

namespace Lasting

variable (lasting : Lasting host lasts)
include lasting

theorem pure (value : α) : Kept lasts (pure value) := fun session => lasting.refl session

theorem throw (stop : Stop) : Kept lasts (throw stop : Run σ α) :=
  fun session => lasting.refl session

theorem fault (cause : Fault) : Kept lasts (Run.fault cause : Run σ α) := lasting.throw _

theorem bind {next : α → Run σ β} (first : Kept lasts act)
    (second : ∀ value, Kept lasts (next value)) : Kept lasts (act >>= next) := by
  intro session
  have before := first session
  cases ended : act session with
  | ok value after =>
    rw [ended] at before
    rw [Run.bind_ok ended]
    exact lasting.trans before (second value after)
  | error stop after =>
    rw [ended] at before
    rw [Run.bind_error ended]
    exact before

omit lasting in
theorem inspect {next : Session σ → Run σ α} (second : ∀ session, Kept lasts (next session)) :
    Kept lasts (get >>= next) := fun session => second session session

theorem ofExcept (result : Except Fault α) : Kept lasts (Run.ofExcept result) := by
  cases result with
  | ok value => exact lasting.pure value
  | error cause => exact lasting.fault cause

omit lasting in
theorem attempt (kept : Kept lasts act) : Kept lasts (Run.attempt act) := by
  intro session
  have before := kept session
  cases ended : act session with
  | ok value after =>
    rw [ended] at before
    rw [Run.attempt_ok ended]
    exact before
  | error stop after =>
    rw [ended] at before
    rw [Run.attempt_error ended]
    exact before

theorem onHeap (act : Mem α) : Kept lasts (Run.onHeap act) := by
  intro session
  unfold Run.onHeap
  dsimp only
  cases act session.heap with
  | ok value heap => exact lasting.heap session heap
  | error stop heap => exact lasting.heap session heap

theorem noted (message : String) (session : Session σ) : lasts session (session.noted message) := by
  unfold Session.noted
  split
  · exact lasting.trace session _
  · exact lasting.refl session

theorem note (message : String) : Kept lasts (Run.note message) :=
  fun session => lasting.noted message session

theorem echoed (message : String) : Kept lasts (Run.onHost (host.echo message)) :=
  fun session => lasting.echo session message

/-- An update of the variables that may fail. -/
theorem update {next : Session σ → Except Fault (Namespace Value)}
    (kept : ∀ {session vars}, next session = .ok vars → lasts session { session with vars }) :
    Kept lasts (do
      let vars ← Run.ofExcept (next (← get))
      modify fun session => { session with vars }) := by
  intro session
  rw [Run.get_bind]
  cases updated : next session with
  | ok vars => exact kept updated
  | error cause => exact lasting.refl session

theorem assigned (name : String) (value : Value) : Kept lasts (Run.assign name value) :=
  lasting.update lasting.assign

theorem declared (name : String) (value : Value) : Kept lasts (Run.declare name value) :=
  lasting.update lasting.declare

theorem removed (name : String) : Kept lasts (Run.unlet name) := by
  intro session
  rw [Run.unlet, Run.get_bind]
  cases found : session.vars.remove? name with
  | ok vars =>
    cases vars with
    | some vars => exact lasting.unlet found
    | none => exact lasting.refl session
  | error cause => exact lasting.refl session

theorem inScript (id : ScopeId) (kept : Kept lasts act) :
    Kept lasts (inScript id act) := fun _ => left_onLeft _ _ ▸ lasting.script id (kept _)

theorem inCallback (key value : Value) (kept : Kept lasts act) :
    Kept lasts (inCallback key value act) :=
  fun _ => left_onLeft _ _ ▸ lasting.callback key value (kept _)

theorem stopped (change : Heap → Heap) (kept : Kept lasts act) :
    Kept lasts (onStop change act) := by
  intro session
  have before := kept session
  unfold onStop
  cases ended : act session with
  | ok value after =>
    rw [ended] at before
    exact before
  | error stop after =>
    rw [ended] at before
    exact lasting.trans before (lasting.heap after _)

theorem runEnclosed (kept : Kept lasts act) : Kept lasts (Run.enclosed act) := by
  intro session
  obtain same | ⟨outermost, same⟩ := left_enclosed act session
  · exact same ▸ lasting.enclosed (kept session.begin)
  · exact same ▸ lasting.unwound outermost (kept session.begin)

theorem swallowed (bang : Bool) {ending} (kept : lasts session (left ending)) :
    lasts session (left (afterSwallow bang ending)) := by
  rcases ending with ⟨value, after⟩ | ⟨stop, after⟩
  · exact kept
  · cases stop with
    | fault cause =>
      dsimp only [afterSwallow]
      split
      · exact lasting.trans kept (lasting.noted _ after)
      · exact kept
    | _ => exact kept

theorem inSilence (bang : Bool) {act} (kept : Kept lasts act) :
    Kept lasts (inSilence host bang act) :=
  fun _ => left_onLeft _ _ ▸ lasting.silent (lasting.swallowed bang (kept _))

theorem outOfSilence {act} (kept : Kept lasts act) :
    Kept lasts (outOfSilence host act) := fun _ => left_onLeft _ _ ▸ lasting.unsilent (kept _)

theorem inFunction (kept : Kept lasts body) : Kept lasts (inFunction body) := by
  intro session
  unfold Vimlet.inFunction
  split
  · rw [left_onLeft, left_afterCall]
    exact lasting.call ‹_› (kept _)
  · exact lasting.refl session

theorem executeReturn {engine line} (kept : Kept lasts (engine.eval line.params)) :
    Kept lasts (executeReturn engine line) := by
  refine inspect fun session => ?_
  split
  · exact lasting.fault _
  · split
    · exact lasting.throw _
    · exact lasting.bind kept fun _ => lasting.throw _

theorem executeLeave (keyword : String) (stop : Stop) :
    Kept lasts (executeLeave keyword stop : Run σ Unit) := by
  refine inspect fun session => ?_
  split
  · exact lasting.fault _
  · exact lasting.throw _

theorem finishing {script} (kept : Kept lasts script) : Kept lasts (finishing script) := by
  refine lasting.bind (attempt kept) fun answer => ?_
  split
  · exact lasting.pure ()
  · exact lasting.note _
  · exact lasting.throw _

/-! ### Watched evaluations -/

theorem shown {active} (signals : ∀ stop, Kept lasts (watch.signal active stop))
    (raised : Stop → Bool) (kept : Kept lasts act) :
    Kept lasts (watch.shown active raised act) := by
  refine lasting.bind (attempt kept) fun answer => ?_
  cases answer with
  | ok value => exact lasting.pure value
  | error stop =>
    dsimp only
    split
    · exact lasting.bind (signals stop) fun _ => lasting.throw stop
    · exact lasting.throw stop

theorem callCongruence (handlers : ∀ active, Kept lasts (watch.handler active))
    (signals : ∀ active stop, Kept lasts (watch.signal active stop)) :
    CallCongruence host watch fun _ _ act _ => Kept lasts act where
  steps active :=
    { pure := lasting.pure
      bind := lasting.bind
      throw := fun _ => lasting.throw _
      inspect := fun _ => inspect
      onHeap := fun _ => lasting.onHeap _
      echo := lasting.echoed
      note := lasting.note
      assign := lasting.assigned
      unlet := lasting.removed
      declare := lasting.declared
      script := fun id _ _ => lasting.inScript id
      callback := fun key value _ _ => lasting.inCallback key value
      stop := fun change _ _ => lasting.stopped change
      enclosed := lasting.runEnclosed
      command := fun _ _ _ _ => lasting.bind (handlers active) fun _ =>
        lasting.shown (signals active) _ (lasting.command _ _ _ _)
      function := fun _ _ => lasting.bind (handlers active) fun _ =>
        lasting.shown (signals active) _ (lasting.function _ _) }
  call := lasting.inFunction
  silent bang _ _ := lasting.inSilence bang
  unsilent := lasting.outOfSilence
  executeReturn _ kept := lasting.shown (signals _) _ (lasting.executeReturn kept)
  executeBreak active := lasting.shown (signals active) _ (lasting.executeLeave _ _)
  executeContinue active := lasting.shown (signals active) _ (lasting.executeLeave _ _)

end Lasting

namespace BlockLasting

variable (lasting : BlockLasting host lasts)
include lasting

theorem checkPatience : Kept lasts Run.checkPatience := by
  intro session
  obtain ⟨_, late⟩ | ⟨left, _, ready⟩ := Run.checkPatience_cases session
  · rw [late]
    exact lasting.patience session 0
  · rw [ready]
    exact lasting.patience session left

theorem defineFunction (header : FunctionHeader) (body : List Line) :
    Kept lasts (defineFunction header body) := by
  intro session
  rw [Vimlet.defineFunction, Run.get_bind]
  cases defined :
    session.functions.insert header.name (.user ⟨header.name, header.params, body⟩) with
  | ok functions => exact lasting.trans (lasting.define defined) (lasting.noted _ _)
  | error cause => exact lasting.refl session

omit lasting in
theorem iteration (kept : Kept lasts body) : Kept lasts (iteration body) := by
  intro session
  rw [iteration_eq, left_afterIteration]
  exact kept session

theorem runLoop {iterations} (kept : Kept lasts iterations) :
    Kept lasts (Vimlet.loop iterations) := by
  intro session
  rw [loop_eq, left_onLeft, left_afterLoop]
  exact lasting.loop (kept _)

theorem inFrame (kept : Kept lasts body) : Kept lasts (inFrame body) := by
  intro session
  rw [Vimlet.inFrame, left_onLeft, left_afterIteration]
  exact lasting.frame (kept _)

theorem repetition :
    Repetition (fun _ act _ => Kept lasts act) (fun _ act _ => Kept lasts act)
      (fun _ act _ => Kept lasts act) fun _ act _ => Kept lasts act where
  pure := lasting.pure ()
  bind := lasting.bind
  late := Lasting.inspect fun _ => lasting.fault _
  checkPatience := lasting.checkPatience
  asked := id
  iterated := iteration
  framed := lasting.inFrame

theorem repeatFor {pattern}
    (kept : ∀ item, Kept lasts (do bindPattern Run.declare pattern item; body)) (items : List Value) :
    Kept lasts (repeatFor pattern body items) :=
  @Repetition.repeatFor _ _ _ _ _ lasting.repetition body body _ kept items

end BlockLasting

theorem left_bind_pure (act : Run σ α) (value : β) (session : Session σ) :
    left ((act >>= fun _ => pure value) session) = left (act session) := by
  cases ended : act session with
  | ok _ after =>
    rw [Run.bind_ok ended]
    rfl
  | error stop after =>
    rw [Run.bind_error ended]
    rfl

namespace WalkLasting

variable (lasting : WalkLasting host lasts)
include lasting

theorem setLine (line : Line) : Kept lasts (Run.setLine line) := fun session =>
  lasting.line session line

theorem walkCongruence (lines : ∀ active line, Kept lasts (watch.line active line))
    (expressions : ∀ active text, Kept lasts (watch.expression active text))
    (handlers : ∀ active, Kept lasts (watch.handler active))
    (signals : ∀ active stop, Kept lasts (watch.signal active stop)) :
    WalkCongruence host watch fun _ _ act _ => Kept lasts act where
  toCallCongruence := lasting.callCongruence handlers signals
  line := lines
  expression := expressions
  checkPatience _ := lasting.checkPatience
  setLine _ := lasting.setLine
  define _ := lasting.defineFunction
  whileLoop {_ engine _} line body _ asked kept := Lasting.inspect fun _ => lasting.runLoop
    (@Repetition.repeatWhile _ _ _ _ _ lasting.repetition body body _ (condition engine line) asked
      kept _)
  forLoop items kept := lasting.runLoop (lasting.repeatFor kept items)

theorem congruence : WalkCongruence host {} fun _ _ act _ => Kept lasts act :=
  lasting.walkCongruence (fun _ _ => lasting.pure ()) (fun _ _ => lasting.pure ())
    (fun _ => lasting.pure ()) fun _ _ => lasting.pure ()

/-- What lasts through every step lasts through everything that the interpreter runs. -/
theorem engine (depth : Nat) :
    (Engine.ofDepth host depth).Related (fun _ act _ => Kept lasts act)
      (Engine.ofDepth host depth) := by
  have kept := lasting.congruence.engine depth []
  rw [Engine.watched_idle] at kept
  exact kept

/-- A request leaves what runs leave of computations through which the relation lasts. -/
theorem perform_left (result : Session σ → Prop)
    (enclosed : ∀ {α} {act : Run σ α}, Kept lasts act → result (left (Run.enclosed act session)))
    (request : Request) : result (left (request.perform host session)) := by
  have kept := lasting.engine maxNesting
  rw [Request.perform_eq]
  cases request with
  | run script =>
    have finished := enclosed (lasting.finishing (kept.run (scriptLines script)))
    rwa [← left_bind_pure _ Value.nil] at finished
  | eval text => exact enclosed (kept.eval text)
  | call name args => exact enclosed (kept.call name args)

theorem perform (request : Request) : Kept lasts (request.perform host) := fun session =>
  lasting.perform_left _ (fun kept => lasting.runEnclosed kept session) request

end WalkLasting

end Vimlet
