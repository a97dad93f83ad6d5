import Vimlet.Proofs.Interpreter.Watch

/-!
# Watches that stop a run

A watch that does nothing, or stops the run for good, leaves a run that goes like the plain one
until it is stopped. Nothing catches such a stop, and no statement is begun on the way out.
-/

namespace Vimlet

variable {σ α β : Type}
variable {stopped : Option Line → Prop} {act act' : Run σ α} {host : Host σ}

/-! ### Endings -/

/-- A watched computation ends like the plain one, or it was stopped, with a current line that has a
property. -/
def Halts (stopped : Option Line → Prop) (ending ending' : Ending σ α) : Prop :=
  ending = ending' ∨ ∃ after, ending = .error .internal after ∧ stopped after.currentLine

/-- A watched computation goes like the plain one, or it is stopped. -/
def Interrupted (stopped : Option Line → Prop) (act act' : Run σ α) : Prop :=
  ∀ session, Halts stopped (act session) (act' session)

namespace Halts

/-- A layer lets the stop pass and cleans up, but it does not change the current line. -/
theorem through {ending ending'} (halts : Halts stopped ending ending')
    (layer : Ending σ α → Ending σ β) (cleanup : Session σ → Session σ)
    (passes : ∀ after, layer (.error .internal after) = .error .internal (cleanup after))
    (keeps : ∀ after, (cleanup after).currentLine = after.currentLine) :
    Halts stopped (layer ending) (layer ending') := by
  obtain rfl | ⟨after, rfl, marked⟩ := halts
  · exact .inl rfl
  · exact .inr ⟨cleanup after, passes after, (keeps after).symm ▸ marked⟩

end Halts

namespace Interrupted

theorem refl (act : Run σ α) : Interrupted stopped act act := fun _ => .inl rfl

theorem halt {reached : Session σ → Prop} {_ : DecidablePred reached} {after}
    (marked : stopped after.currentLine) :
    Interrupted stopped
      (fun session => if reached session then .error .internal after else .ok () session)
      (pure ()) := by
  intro session
  dsimp only
  split
  · exact .inr ⟨after, rfl, marked⟩
  · exact .inl rfl

theorem bind {next next' : α → Run σ β} (first : Interrupted stopped act act')
    (second : ∀ value, Interrupted stopped (next value) (next' value)) :
    Interrupted stopped (act >>= next) (act' >>= next') := by
  intro session
  obtain same | ⟨after, ended, marked⟩ := first session
  · cases ended : act' session with
    | ok value after =>
      rw [Run.bind_ok ended, Run.bind_ok (same.trans ended)]
      exact second value after
    | error stop after =>
      rw [Run.bind_error ended, Run.bind_error (same.trans ended)]
      exact .inl rfl
  · rw [Run.bind_error ended]
    exact .inr ⟨after, rfl, marked⟩

/-! ### Layers -/

section Layers

variable (acts : Interrupted stopped act act')
include acts

theorem inScript (id : ScopeId) : Interrupted stopped (inScript id act) (Vimlet.inScript id act') :=
  fun _ => (acts _).through (onLeft _) _ (fun _ => rfl) fun _ => rfl

theorem inCallback (key value : Value) :
    Interrupted stopped (inCallback key value act) (Vimlet.inCallback key value act') :=
  fun _ => (acts _).through (onLeft _) _ (fun _ => rfl) fun _ => rfl

theorem onStop (change : Heap → Heap) :
    Interrupted stopped (onStop change act) (Vimlet.onStop change act') :=
  fun _ => (acts _).through (afterStop change) _ (fun _ => rfl) fun _ => rfl

theorem enclosed : Interrupted stopped (Run.enclosed act) (Run.enclosed act') := by
  intro session
  rw [enclosed_eq_after, enclosed_eq_after]
  exact (acts _).through (afterEnclosed session) (fun after => { after with runs := session.runs })
    (fun _ => rfl) fun _ => rfl

end Layers

section Layers

variable {act act' : Run σ Unit} (acts : Interrupted stopped act act')
include acts

theorem inFunction : Interrupted stopped (inFunction act) (Vimlet.inFunction act') := by
  intro session
  unfold Vimlet.inFunction
  split
  · exact (acts _).through (fun ending => onLeft _ (afterCall ending)) _ (fun _ => rfl) fun _ => rfl
  · exact .inl rfl

theorem inSilence (bang : Bool) :
    Interrupted stopped (inSilence host bang act) (Vimlet.inSilence host bang act') := fun _ =>
  (acts _).through (fun ending => onLeft _ (afterSwallow bang ending)) _ (fun _ => rfl) fun _ => rfl

theorem outOfSilence :
    Interrupted stopped (outOfSilence host act) (Vimlet.outOfSilence host act') :=
  fun _ => (acts _).through (onLeft _) _ (fun _ => rfl) fun _ => rfl

theorem finishing : Interrupted stopped (finishing act) (Vimlet.finishing act') := by
  intro session
  rw [finishing_eq, finishing_eq]
  exact (acts session).through afterScript id (fun _ => rfl) fun _ => rfl

theorem iteration : Interrupted stopped (iteration act) (Vimlet.iteration act') := by
  intro session
  rw [iteration_eq, iteration_eq]
  exact (acts session).through afterIteration id (fun _ => rfl) fun _ => rfl

theorem inFrame : Interrupted stopped (inFrame act) (Vimlet.inFrame act') := fun _ =>
  (acts _).through (fun ending => onLeft _ (afterIteration ending)) _ (fun _ => rfl) fun _ => rfl

theorem loop : Interrupted stopped (loop act) (Vimlet.loop act') := by
  intro session
  rw [loop_eq, loop_eq]
  exact (acts _).through (fun ending => onLeft _ (afterLoop ending)) _ (fun _ => rfl) fun _ => rfl

end Layers

theorem repetition :
    Repetition (σ := σ) (fun _ => Interrupted stopped) (fun _ => Interrupted stopped)
      (fun _ => Interrupted stopped) fun _ => Interrupted stopped where
  pure := .refl _
  bind := .bind
  late := .refl _
  checkPatience := .refl _
  asked := id
  iterated := .iteration
  framed := .inFrame

end Interrupted

/-! ### Watches of statements and expressions -/

namespace Watch

variable (line : Activity → Line → Run σ Unit) (expression : Activity → String → Run σ Unit)
  (active : Activity)

theorem shown_mk (raised : Stop → Bool) (act : Run σ α) :
    ({ line, expression } : Watch σ).shown active raised act = act := by
  funext session
  cases ended : act session with
  | ok value after => exact shown_ok _ active ended
  | error stop after =>
    rw [shown_error _ active ended]
    split <;> rfl

theorem guard_mk (act : Run σ α) : ({ line, expression } : Watch σ).guard active act = act :=
  shown_mk line expression active _ act

end Watch

/-! ### The interpreter -/

section Interpreter

variable {line : Activity → Line → Run σ Unit} {expression : Activity → String → Run σ Unit}
  (at_line : ∀ active next, Interrupted stopped (line active next) (pure ()))
  (at_expression : ∀ active text, Interrupted stopped (expression active text) (pure ()))
include at_line at_expression

theorem interrupted_walkCongruence (host : Host σ) :
    WalkCongruence host { line, expression } fun _ _ act act' => Interrupted stopped act act' where
  steps active :=
    { pure := fun _ => .refl _
      bind := .bind
      throw := fun _ => .refl _
      inspect := fun _ second session => second session session
      onHeap := fun _ => .refl _
      echo := fun _ => .refl _
      note := fun _ => .refl _
      assign := fun _ _ => .refl _
      unlet := fun _ => .refl _
      declare := fun _ _ => .refl _
      script := fun id _ _ acts => acts.inScript id
      callback := fun key value _ _ acts => acts.inCallback key value
      stop := fun change _ _ acts => acts.onStop change
      enclosed := .enclosed
      command := fun _ _ _ _ => by
        rw [Watch.guard_mk]
        exact .refl _
      function := fun _ _ => by
        rw [Watch.guard_mk]
        exact .refl _ }
  call := .inFunction
  silent bang _ _ acts := acts.inSilence bang
  unsilent acts := acts.outOfSilence
  executeReturn line evals := by
    rw [Watch.shown_mk]
    refine fun session => ?_
    by_cases none_active : session.functionDepth = 0
    · rw [executeReturn_of_none none_active, executeReturn_of_none none_active]
      exact .inl rfl
    · rw [executeReturn_of_active none_active, executeReturn_of_active none_active]
      refine Interrupted.bind ?_ (fun _ => .refl _) session
      unfold returnValue
      split
      · exact .refl _
      · exact evals
  executeBreak _ := by
    rw [Watch.shown_mk]
    exact .refl _
  executeContinue _ := by
    rw [Watch.shown_mk]
    exact .refl _
  line := at_line
  expression := at_expression
  checkPatience _ := .refl _
  setLine _ _ := .refl _
  define _ _ _ := .refl _
  whileLoop _ _ _ asked bodies session :=
    (Interrupted.repetition.repeatWhile asked bodies _).loop session
  forLoop items bodies := (Interrupted.repetition.repeatFor bodies items).loop

/-- A watched request goes like the plain one until it is stopped. -/
theorem Request.watched_interrupted (host : Host σ) (request : Request) :
    Interrupted stopped (request.watched host { line, expression }) (request.perform host) := by
  have engines := (interrupted_walkCongruence at_line at_expression host).engine maxNesting []
  rw [Request.perform_eq]
  cases request with
  | run script => exact .bind (engines.run _).finishing.enclosed fun _ => .refl _
  | eval text => exact (engines.eval text).enclosed
  | call name args => exact (engines.call name args).enclosed

end Interpreter

/-! ### Watches that do nothing -/

theorem Interrupted.eq (acts : Interrupted (fun _ => False) act act') : act = act' := by
  funext session
  obtain same | ⟨_, _, absurd⟩ := acts session
  · exact same
  · exact absurd.elim

theorem Engine.watched_idle (host : Host σ) (depth : Nat) (active : Activity) :
    Engine.watched host {} depth active = Engine.ofDepth host depth := by
  have cong : WalkCongruence host {} fun _ _ act act' =>
      Interrupted (fun _ => False) act act' :=
    interrupted_walkCongruence (fun _ _ => .refl _) (fun _ _ => .refl _) host
  obtain ⟨evals, calls, runs⟩ := cong.engine depth active
  cases watched : Engine.watched host {} depth active with
  | mk eval call run =>
    cases plain : Engine.ofDepth host depth with
    | mk eval' call' run' =>
      rw [watched, plain] at evals calls runs
      obtain rfl : eval = eval' := funext fun text => (evals text).eq
      obtain rfl : call = call' := funext fun name => funext fun args => (calls name args).eq
      obtain rfl : run = run' := funext fun lines => (runs lines).eq
      rfl

end Vimlet
