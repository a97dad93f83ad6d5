import Vimlet.Proofs.Interpreter.Watch

/-!
# More time changes nothing

A computation of the interpreter that does not run out of time ends in the same way if it is given
more time, and leaves the additional time. So what a script does can be told without mentioning how
much time it has.
-/

namespace Vimlet

open Run

variable {σ α β : Type}
variable {act : Run σ α} {body : Run σ Unit} {change : Session σ → Session σ} {holds : Run σ Bool}
  {fuel : Nat} {session : Session σ} {host : Host σ}

def Session.grant (extra : Nat) (session : Session σ) : Session σ :=
  session.withPatience (session.patience + extra)

/-- Inside of a run, more time changes nothing about a computation, unless it ends in a way that
tells of a lack of time. -/
structure PatientUnless (late : Ending σ α → Prop) (act : Run σ α) : Prop where
  runs_eq {session : Session σ} (inside : session.runs ≠ 0) :
    (left (act session)).runs = session.runs
  grant (extra : Nat) {session} (inside : session.runs ≠ 0) (in_time : ¬late (act session)) :
    act (session.grant extra) = onLeft (·.grant extra) (act session)

/-- Inside of a run, more time changes nothing about a computation that ends in time. -/
abbrev Patient (act : Run σ α) : Prop := PatientUnless TimedOut act

/-- A change of the session that has nothing to do with time. -/
structure Timeless (change : Session σ → Session σ) : Prop where
  withPatience (session : Session σ) (patience : Nat) :
    change (session.withPatience patience) = (change session).withPatience patience
  runs_eq (session : Session σ) : (change session).runs = session.runs

theorem Timeless.patience_eq (timeless : Timeless change) (session : Session σ) :
    (change session).patience = session.patience := by
  have same : change session = (change session).withPatience session.patience :=
    timeless.withPatience session session.patience
  rw [same]
  rfl

theorem Timeless.grant (timeless : Timeless change) (extra : Nat) (session : Session σ) :
    change (session.grant extra) = (change session).grant extra := by
  rw [Session.grant, timeless.withPatience, ← timeless.patience_eq session]
  rfl

theorem Timeless.noted (message : String) :
    Timeless (Session.noted message : Session σ → Session σ) where
  withPatience session patience := by
    cases debug : session.debug <;> simp [Session.noted, Session.withPatience, debug]
  runs_eq session := by cases debug : session.debug <;> simp [Session.noted, debug]

/-- A change of endings that has nothing to do with time. -/
structure TimelessChange (leave : Ending σ α → Ending σ β) : Prop where
  withPatience (patience : Nat) (ending : Ending σ α) :
    leave (onLeft (·.withPatience patience) ending) =
      onLeft (·.withPatience patience) (leave ending)
  timedOut_iff (ending : Ending σ α) : TimedOut (leave ending) ↔ TimedOut ending
  runs_eq (ending : Ending σ α) : (left (leave ending)).runs = (left ending).runs

namespace TimelessChange

theorem grant {leave : Ending σ α → Ending σ β} (timeless : TimelessChange leave) (extra : Nat)
    (ending : Ending σ α) :
    leave (onLeft (·.grant extra) ending) = onLeft (·.grant extra) (leave ending) := by
  have grant_eq {γ : Type} (ending : Ending σ γ) : onLeft (·.grant extra) ending =
      onLeft (·.withPatience ((left ending).patience + extra)) ending := by
    cases ending <;> rfl
  have patience_eq : (left (leave ending)).patience = (left ending).patience := by
    have same := timeless.withPatience (left ending).patience ending
    have kept : onLeft (·.withPatience (left ending).patience) ending = ending := by
      cases ending <;> rfl
    rw [kept] at same
    rw [same, left_onLeft]
    rfl
  rw [grant_eq, grant_eq, timeless.withPatience, patience_eq]

theorem onLeft (change : Session σ → Session σ) (timeless : Timeless change) :
    TimelessChange (onLeft change : Ending σ α → Ending σ α) where
  withPatience patience ending := by
    cases ending <;> simp only [Vimlet.onLeft, timeless.withPatience]
  timedOut_iff _ := timedOut_onLeft
  runs_eq ending := by rw [left_onLeft, timeless.runs_eq]

theorem afterIteration : TimelessChange (afterIteration : Ending σ Unit → Ending σ Unit) where
  withPatience patience ending := by rcases ending with _ | ⟨⟨⟩, _⟩ <;> rfl
  timedOut_iff ending := by rcases ending with _ | ⟨⟨⟩, _⟩ <;> rfl
  runs_eq ending := by rw [left_afterIteration]

theorem afterLoop : TimelessChange (afterLoop : Ending σ Unit → Ending σ Unit) where
  withPatience patience ending := by rcases ending with _ | ⟨⟨⟩, _⟩ <;> rfl
  timedOut_iff ending := by rcases ending with _ | ⟨⟨⟩, _⟩ <;> rfl
  runs_eq ending := by rw [left_afterLoop]

theorem afterCall : TimelessChange (afterCall : Ending σ Unit → Ending σ Value) where
  withPatience patience ending := by rcases ending with _ | ⟨⟨⟩, _⟩ <;> rfl
  timedOut_iff ending := by rcases ending with _ | ⟨⟨⟩, _⟩ <;> rfl
  runs_eq ending := by rw [left_afterCall]

theorem afterSwallow (bang : Bool) :
    TimelessChange (afterSwallow bang : Ending σ Unit → Ending σ Unit) where
  withPatience patience ending := by
    rcases ending with _ | ⟨stop, session⟩
    · rfl
    · cases stop with
      | fault cause =>
        dsimp only [Vimlet.afterSwallow, Vimlet.onLeft]
        split
        · exact congrArg (EStateM.Result.ok ()) ((Timeless.noted _).withPatience session patience)
        · rfl
      | _ => rfl
  timedOut_iff ending := by
    rcases ending with _ | ⟨stop, session⟩
    · rfl
    · cases stop with
      | fault cause => cases cause <;> cases bang <;> rfl
      | _ => rfl
  runs_eq ending := by
    rcases ending with _ | ⟨stop, session⟩
    · rfl
    · cases stop with
      | fault cause =>
        dsimp only [Vimlet.afterSwallow]
        split
        · exact (Timeless.noted _).runs_eq session
        · rfl
      | _ => rfl

theorem afterStop (change : Heap → Heap) :
    TimelessChange (afterStop change : Ending σ α → Ending σ α) where
  withPatience patience ending := by cases ending <;> rfl
  timedOut_iff ending := by cases ending <;> rfl
  runs_eq ending := by cases ending <;> rfl

theorem comp {γ : Type} {outer : Ending σ β → Ending σ γ} {inner : Ending σ α → Ending σ β}
    (outside : TimelessChange outer) (inside : TimelessChange inner) :
    TimelessChange fun ending => outer (inner ending) where
  withPatience patience ending := by rw [inside.withPatience, outside.withPatience]
  timedOut_iff ending := by rw [outside.timedOut_iff, inside.timedOut_iff]
  runs_eq ending := by rw [outside.runs_eq, inside.runs_eq]

end TimelessChange

/-! ### Steps -/

namespace Patient

variable {next : α → Run σ β}

theorem pure (value : α) : Patient (pure value : Run σ α) := ⟨fun _ => rfl, fun _ _ _ _ => rfl⟩

theorem throw (stop : Stop) : Patient (throw stop : Run σ α) := ⟨fun _ => rfl, fun _ _ _ _ => rfl⟩

theorem bind (first : Patient act) (second : ∀ value, Patient (next value)) :
    Patient (act >>= next) where
  runs_eq {session} inside := by
    have kept := first.runs_eq inside
    cases ended : act session with
    | ok value after =>
      rw [ended] at kept
      rw [bind_ok ended, (second value).runs_eq (kept ▸ inside)]
      exact kept
    | error stop after =>
      rw [ended] at kept
      rw [bind_error ended]
      exact kept
  grant extra {session} inside in_time := by
    have kept := first.runs_eq inside
    have granted := first.grant extra inside
    cases ended : act session with
    | ok value after =>
      rw [ended] at kept granted
      rw [bind_ok ended] at in_time ⊢
      rw [bind_ok (granted id)]
      exact (second value).grant extra (kept ▸ inside) in_time
    | error stop after =>
      rw [ended] at granted
      rw [bind_error ended] at in_time ⊢
      rw [bind_error (granted in_time)]
      rfl

theorem inspect {next : Session σ → Run σ α}
    (timeless : ∀ session patience, next (session.withPatience patience) = next session)
    (patient : ∀ session, Patient (next session)) : Patient (get >>= next) where
  runs_eq inside := (patient _).runs_eq inside
  grant extra {session} inside in_time := by
    change next (session.grant extra) (session.grant extra) = _
    rw [Session.grant, timeless]
    exact (patient session).grant extra inside in_time

theorem modify (timeless : Timeless change) :
    Patient (modify change : Run σ Unit) where
  runs_eq _ := timeless.runs_eq _
  grant extra {session} _ _ := congrArg (EStateM.Result.ok ()) (timeless.grant extra session)

theorem ofExcept (result : Except Fault α) : Patient (Run.ofExcept result : Run σ α) := by
  cases result with
  | ok value => exact .pure value
  | error cause => exact .throw _

theorem onHeap (act : Mem α) : Patient (Run.onHeap act : Run σ α) where
  runs_eq {session} _ := by
    unfold Run.onHeap
    dsimp only
    split <;> rfl
  grant extra {session} _ _ := by
    unfold Run.onHeap
    dsimp only [Session.grant, Session.withPatience]
    split <;> rfl

theorem checkPatience : Patient (Run.checkPatience : Run σ Unit) where
  runs_eq {session} _ := by
    obtain ⟨_, late⟩ | ⟨remaining, _, ready⟩ := checkPatience_cases session
    · rw [late]
      rfl
    · rw [ready]
      rfl
  grant extra {session} _ in_time := by
    obtain ⟨_, late⟩ | ⟨remaining, patience_eq, ready⟩ := checkPatience_cases session
    · rw [late] at in_time
      exact absurd trivial in_time
    · obtain ⟨none_left, _⟩ | ⟨more, more_eq, granted⟩ :=
        checkPatience_cases (session.grant extra)
      · simp [Session.grant, patience_eq] at none_left
      · obtain rfl : more = remaining + extra := by
          simp [Session.grant, patience_eq] at more_eq
          omega
        rw [ready, granted]
        rfl

theorem spend (count : Nat) : Patient (Run.spend count : Run σ Unit) := by
  induction count with
  | zero => exact .pure ()
  | succ count ih => exact .bind .checkPatience fun _ => ih

/-- What stands around a patient computation and has nothing to do with time. -/
theorem within (patient : Patient act) (enter : Session σ → Session σ) (enters : Timeless enter)
    {leave : Session σ → Ending σ α → Ending σ β}
    (leaves : ∀ session, TimelessChange (leave session))
    (same : ∀ session patience, leave (session.withPatience patience) = leave session) :
    Patient fun session => leave session (act (enter session)) where
  runs_eq {session} inside := by
    have inside_entered : (enter session).runs ≠ 0 := by rwa [enters.runs_eq]
    rw [(leaves session).runs_eq, patient.runs_eq inside_entered, enters.runs_eq]
  grant extra {session} inside in_time := by
    have inside_entered : (enter session).runs ≠ 0 := by rwa [enters.runs_eq]
    rw [(leaves session).timedOut_iff] at in_time
    change leave (session.withPatience _) (act (enter (session.grant extra))) = _
    rw [same, enters.grant, patient.grant extra inside_entered in_time, (leaves session).grant]

theorem enclosed (patient : Patient act) : Patient (Run.enclosed act) where
  runs_eq {session} inside := by rw [enclosed_eq inside, left_onLeft]
  grant extra {session} inside in_time := by
    rw [enclosed_eq inside, timedOut_onLeft] at in_time
    have inside_later : (session.grant extra).runs ≠ 0 := inside
    rw [enclosed_eq inside, enclosed_eq inside_later]
    have granted := patient.grant extra (Nat.succ_ne_zero session.runs) in_time
    change onLeft _ (act (Session.grant extra { session with runs := session.runs + 1 })) = _
    rw [granted]
    cases act { session with runs := session.runs + 1 } <;> rfl

end Patient

namespace Patient

/-! ### Layers -/

theorem inScript (id : ScopeId) (patient : Patient act) : Patient (inScript id act) :=
  patient.within (·.setScript (some id)) ⟨fun _ _ => rfl, fun _ => rfl⟩
    (fun session => .onLeft (·.setScript session.functions.scripts.active)
      ⟨fun _ _ => rfl, fun _ => rfl⟩) fun _ _ => rfl

theorem inCallback (key value : Value) (patient : Patient act) : Patient (inCallback key value act) :=
  patient.within (·.setCallback key value) ⟨fun _ _ => rfl, fun _ => rfl⟩
    (fun session => .onLeft (Session.setCallback (session.builtin "key") (session.builtin "val"))
      ⟨fun _ _ => rfl, fun _ => rfl⟩) fun _ _ => rfl

theorem onStop (change : Heap → Heap) (patient : Patient act) : Patient (onStop change act) :=
  patient.within id ⟨fun _ _ => rfl, fun _ => rfl⟩ (fun _ => .afterStop change) fun _ _ => rfl

theorem inSilence (host : Host σ) (bang : Bool) (patient : Patient body) :
    Patient (inSilence host bang body) :=
  patient.within (fun session => session.setSilence host (session.silence + 1))
    ⟨fun _ _ => rfl, fun _ => rfl⟩
    (fun _ => .comp (.onLeft (fun after => after.setSilence host (after.silence - 1))
      ⟨fun _ _ => rfl, fun _ => rfl⟩) (.afterSwallow bang)) fun _ _ => rfl

theorem outOfSilence (host : Host σ) (patient : Patient body) : Patient (outOfSilence host body) :=
  patient.within (·.setSilence host 0) ⟨fun _ _ => rfl, fun _ => rfl⟩
    (fun session => .onLeft (·.setSilence host session.silence) ⟨fun _ _ => rfl, fun _ => rfl⟩)
    fun _ _ => rfl

theorem inFunction (patient : Patient body) : Patient (inFunction body) := by
  have body_patient (loops : Nat) : Patient (fun session =>
      onLeft (Session.leaveFunction loops) (afterCall (body session.enterFunction))) :=
    patient.within Session.enterFunction ⟨fun _ _ => rfl, fun _ => rfl⟩ (fun _ =>
      .comp (.onLeft (Session.leaveFunction loops) ⟨fun _ _ => rfl, fun _ => rfl⟩) .afterCall)
      fun _ _ => rfl
  constructor
  · intro session inside
    unfold Vimlet.inFunction
    split
    · exact (body_patient _).runs_eq inside
    · rfl
  · intro extra session inside in_time
    by_cases shallow : (session.functionDepth : Int) < session.maxFunctionDepth
    · have opened : Vimlet.inFunction body session = _ := if_pos shallow
      rw [opened] at in_time ⊢
      exact (if_pos shallow).trans ((body_patient session.loopDepth).grant extra inside in_time)
    · have opened : Vimlet.inFunction body session = _ := if_neg shallow
      rw [opened]
      exact if_neg shallow

theorem iteration (patient : Patient body) : Patient (iteration body) := by
  rw [funext (iteration_eq body)]
  exact patient.within id ⟨fun _ _ => rfl, fun _ => rfl⟩ (fun _ => .afterIteration) fun _ _ => rfl

theorem inFrame (patient : Patient body) : Patient (inFrame body) :=
  patient.within (·.enter false) ⟨fun _ _ => rfl, fun _ => rfl⟩
    (fun _ => .comp (.onLeft Session.leave ⟨fun _ _ => rfl, fun _ => rfl⟩) .afterIteration)
    fun _ _ => rfl

theorem loop (patient : Patient body) : Patient (loop body) := by
  rw [funext (loop_eq body)]
  exact patient.within Session.enterLoop ⟨fun _ _ => rfl, fun _ => rfl⟩
    (fun _ => .comp (.onLeft Session.leaveLoop ⟨fun _ _ => rfl, fun _ => rfl⟩) .afterLoop)
    fun _ _ => rfl

theorem repetition :
    Repetition (σ := σ) (fun _ _ act => Patient act) (fun _ _ act => Patient act)
      (fun _ _ act => Patient act) fun _ _ act => Patient act where
  pure := .pure ()
  bind := .bind
  late := .inspect (fun _ _ => rfl) fun _ => .throw _
  checkPatience := .checkPatience
  asked := id
  iterated := .iteration
  framed := .inFrame

theorem repeatWhile (asked : Patient holds) (patient : Patient body) (fuel : Nat) :
    Patient (repeatWhile holds body fuel) :=
  @Repetition.repeatWhile _ _ _ _ _ repetition body _ holds _ asked patient fuel

end Patient

/-- A loop that ends in time needs no more iterations. -/
theorem repeatWhile_add (in_time : ¬TimedOut (repeatWhile holds body fuel session)) (extra : Nat) :
    repeatWhile holds body (fuel + extra) session = repeatWhile holds body fuel session := by
  induction fuel generalizing session with
  | zero => exact absurd trivial in_time
  | succ fuel ih =>
    rw [Nat.succ_add]
    refine bind_congr_ok fun answer asked_left asked => ?_
    rw [repeatWhile, bind_ok asked] at in_time
    cases answer with
    | false => rfl
    | true =>
      refine bind_congr_ok fun _ ready checked => ?_
      refine bind_congr_ok fun _ again iterated => ?_
      simp only [if_pos, bind_ok checked, bind_ok iterated] at in_time
      exact ih in_time

theorem loop_repeatWhile_add (in_time : ¬TimedOut (loop (repeatWhile holds body fuel) session))
    (extra : Nat) :
    loop (repeatWhile holds body (fuel + extra)) session =
      loop (repeatWhile holds body fuel) session := by
  rw [loop_eq, timedOut_onLeft, TimelessChange.afterLoop.timedOut_iff] at in_time
  rw [loop_eq, loop_eq, repeatWhile_add in_time]

namespace Patient

variable {engine : Engine σ}

theorem runWhile (line : Line) (asked : Patient (condition engine line)) (patient : Patient body) :
    Patient (runWhile engine line body) where
  runs_eq {session} inside := (repeatWhile asked patient (session.patience + 1)).loop.runs_eq inside
  grant extra {session} inside in_time := by
    have granted :=
      (repeatWhile asked patient (session.patience + 1)).loop.grant extra inside in_time
    have in_time_granted : ¬TimedOut (Vimlet.loop (Vimlet.repeatWhile (condition engine line) body
        (session.patience + 1)) (session.grant extra)) := by
      rwa [granted, timedOut_onLeft]
    refine Eq.trans ?_ granted
    have more := loop_repeatWhile_add in_time_granted extra
    rwa [Nat.add_right_comm] at more

theorem declare (name : String) (value : Value) :
    Patient (Run.declare name value : Run σ Unit) := by
  refine .inspect (fun _ _ => rfl) fun session => .bind (.ofExcept _) fun vars => ?_
  exact .modify ⟨fun _ _ => rfl, fun _ => rfl⟩

theorem bindPattern (pattern : Pattern) (value : Value) :
    Patient (bindPattern Run.declare pattern value : Run σ Unit) := by
  have bound (names : List (String × Value)) :
      Patient (bindAll Run.declare names : Run σ Unit) := by
    induction names with
    | nil => exact .pure ()
    | cons first rest ih => exact .bind (.declare _ _) fun _ => ih
  refine .inspect (fun _ _ => rfl) fun session => .bind (bound _) fun _ => ?_
  split
  · exact .throw _
  · exact .pure ()

theorem assign (name : String) (value : Value) : Patient (Run.assign name value : Run σ Unit) := by
  refine .inspect (fun _ _ => rfl) fun session => .bind (.ofExcept _) fun vars => ?_
  exact .modify ⟨fun _ _ => rfl, fun _ => rfl⟩

theorem unlet (name : String) : Patient (Run.unlet name : Run σ Bool) := by
  refine .inspect (fun _ _ => rfl) fun session => .bind (.ofExcept _) fun found => ?_
  split
  · exact .bind (.modify ⟨fun _ _ => rfl, fun _ => rfl⟩) fun _ => .pure _
  · exact .pure _

theorem note (message : String) : Patient (Run.note message : Run σ Unit) :=
  .modify (.noted message)

theorem executeLeave (keyword : String) (stop : Stop) :
    Patient (executeLeave keyword stop : Run σ Unit) := by
  refine .inspect (fun _ _ => rfl) fun session => ?_
  split
  · exact .throw _
  · exact .throw _

theorem defineFunction (header : FunctionHeader) (body : List Line) :
    Patient (defineFunction header body : Run σ Unit) := by
  refine .inspect (fun _ _ => rfl) fun session => .bind (.ofExcept _) fun functions => ?_
  exact .bind (.modify ⟨fun _ _ => rfl, fun _ => rfl⟩) fun _ => .note _

end Patient

/-! ### The interpreter -/

/-- What scripts can ask a host for is patient. -/
structure Host.Patient (host : Host σ) : Prop where
  command (id : Nat) (range : LineRange) (bang : Bool) (params : String) :
    Vimlet.Patient (host.command id range bang params)
  function (id : Nat) (args : List Value) : Vimlet.Patient (host.function id args)

/-- More time changes nothing about what the interpreter does in time. -/
theorem Host.Patient.walkCongruence (patient : host.Patient) :
    WalkCongruence host {} fun _ _ _ act => Vimlet.Patient act where
  steps _ :=
    { pure := .pure
      bind := .bind
      throw := fun _ => .throw _
      inspect := .inspect
      onHeap := fun _ => .onHeap _
      echo := fun _ => .modify ⟨fun _ _ => rfl, fun _ => rfl⟩
      note := .note
      assign := .assign
      unlet := .unlet
      declare := .declare
      script := fun id _ _ => .inScript id
      callback := fun key value _ _ => .inCallback key value
      stop := fun change _ _ => .onStop change
      enclosed := .enclosed
      command := patient.command
      function := patient.function }
  call := .inFunction
  silent bang _ _ := .inSilence host bang
  unsilent := .outOfSilence host
  executeReturn _ evaluated := by
    refine .inspect (fun _ _ => rfl) fun session => ?_
    split
    · exact .throw _
    · split
      · exact .throw _
      · exact .bind evaluated fun _ => .throw _
  executeBreak _ := .executeLeave _ _
  executeContinue _ := .executeLeave _ _
  line _ _ := .pure ()
  expression _ _ := .pure ()
  checkPatience _ := .checkPatience
  setLine _ _ := .modify ⟨fun _ _ => rfl, fun _ => rfl⟩
  define _ := .defineFunction
  whileLoop line _ _ := .runWhile line
  forLoop {_ _ body _} items patient :=
    .loop (@Repetition.repeatFor _ _ _ _ _ Vimlet.Patient.repetition body _ _ patient items)

abbrev Engine.Patient (engine : Engine σ) : Prop :=
  engine.Related (fun _ _ act => Vimlet.Patient act) engine

theorem Engine.ofDepth_patient (patient : host.Patient) (depth : Nat) :
    (Engine.ofDepth host depth).Patient :=
  have patients := patient.walkCongruence.engine depth []
  ⟨patients.eval, patients.call, patients.run⟩

end Vimlet
