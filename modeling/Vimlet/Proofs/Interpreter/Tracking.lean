import Vimlet.Proofs.Session.Lasting

/-!
# Watched runs that go like plain ones

A watch that does nothing while an invariant holds changes nothing, if the invariant holds wherever
the watch is shown something. A watch may also stop the run where certain signals are raised; then
watched and plain runs part only if the plain one ends with such a signal.
-/

namespace Vimlet

open Run

variable {σ α β : Type}
variable {stop : Stop} {cut : Stop → Prop} {lasts : Session σ → Session σ → Prop}
  {act act' : Run σ α} {watch : Watch σ} {host : Host σ} {holds : Activity → Session σ → Prop}
  {session : Session σ} {next next' : α → Run σ β}

/-! ### Where signals go -/

/-- A `continue` that is raised inside gets out: nothing inside runs the body of a loop. -/
def Activity.letsContinue : Activity → Bool
  | [] => true
  | .condition :: .loop :: rest => Activity.letsContinue rest
  | .loop :: _ => false
  | _ :: rest => Activity.letsContinue rest

/-- A signal that is raised inside gets out. -/
def Stop.escapes : Stop → Activity → Bool
  | .returning _, active => !active.contains .call
  | .breaking, active => !active.contains .loop
  | .continuing, active => active.letsContinue
  | .fault _, _ | .internal, _ | .tooDeep, _ => false

variable {active : Activity}

theorem Stop.isSignal_of_escapes (escapes : stop.escapes active = true) : stop.isSignal = true := by
  cases stop <;> first | rfl | cases escapes

/-! ### Endings -/

/-- How a watched computation may end, given the ending of the plain one: in the same way, unless
that is with a lost signal, in whose place there is a failure where it is cut off. -/
inductive Passed (lost cut : Stop → Prop) : Ending σ α → Ending σ α → Prop where
  | ok (value : α) (session : Session σ) : Passed lost cut (.ok value session) (.ok value session)
  | error {stop : Stop} (session : Session σ) (kept : ¬lost stop) :
      Passed lost cut (.error stop session) (.error stop session)
  | lost {ending : Ending σ α} {stop : Stop} {session : Session σ} (gone : lost stop)
      (stopped : cut stop → ending = .error .internal session) :
      Passed lost cut ending (.error stop session)

namespace Passed

variable {lost lost' : Stop → Prop}
variable {ending ending' : Ending σ α}

theorem refl (kept : ∀ stop session, ending = .error stop session → ¬lost stop) :
    Passed lost cut ending ending := by
  cases ending with
  | ok value session => exact .ok value session
  | error stop session => exact .error session (kept stop session rfl)

theorem bind (first : Passed lost cut (act session) (act' session))
    (second : ∀ value after, act' session = .ok value after →
      Passed lost cut (next value after) (next' value after)) :
    Passed lost cut ((act >>= next) session) ((act' >>= next') session) := by
  generalize ended : act session = ending at first
  generalize ended' : act' session = ending' at first
  cases first with
  | ok value after =>
    rw [bind_ok ended, bind_ok ended']
    exact second value after ended'
  | error after kept =>
    rw [bind_error ended, bind_error ended']
    exact .error after kept
  | lost gone stopped =>
    rw [bind_error ended']
    refine .lost gone fun cuts => ?_
    rw [stopped cuts] at ended
    exact bind_error ended

/-- A layer lets stops pass, or it makes something of them that is not lost. -/
theorem through {layer : Ending σ α → Ending σ β} (passed : Passed lost cut ending ending')
    (cleanup : Session σ → Session σ)
    (values : ∀ value session, ∃ result after, layer (.ok value session) = .ok result after)
    (failures : ∀ session, layer (.error .internal session) = .error .internal (cleanup session))
    (stops : ∀ stop session,
      layer (.error stop session) = .error stop (cleanup session) ∧ (lost stop ↔ lost' stop) ∨
        ¬lost stop ∧ ∀ reason after, layer (.error stop session) = .error reason after →
          ¬lost' reason) :
    Passed lost' cut (layer ending) (layer ending') := by
  cases passed with
  | ok value session =>
    obtain ⟨result, after, same⟩ := values value session
    exact same ▸ .ok result after
  | @error stop session kept =>
    obtain ⟨same, iff⟩ | ⟨_, others⟩ := stops stop session
    · exact same ▸ .error _ (iff.not.mp kept)
    · exact refl others
  | @lost _ stop session gone stopped =>
    obtain ⟨same, iff⟩ | ⟨kept, _⟩ := stops stop session
    · exact same ▸ .lost (iff.mp gone) fun cuts => by rw [stopped cuts, failures]
    · exact absurd gone kept

theorem onLeft (change : Session σ → Session σ) (passed : Passed lost cut ending ending') :
    Passed lost cut (onLeft change ending) (Vimlet.onLeft change ending') := by
  cases passed with
  | ok value session => exact .ok value _
  | error session kept => exact .error _ kept
  | lost gone stopped => exact .lost gone fun cuts => by rw [stopped cuts]; rfl

theorem eq_of_forall_not (passed : Passed lost cut ending ending')
    (kept : ∀ stop session, ending' = .error stop session → ¬lost stop) : ending = ending' := by
  cases passed with
  | ok value session => rfl
  | error session _ => rfl
  | lost gone _ => exact absurd gone (kept _ _ rfl)

end Passed

/-- The signals of some kind that get out of what is active. -/
def Lost (sealed : Stop → Prop) (active : Activity) (stop : Stop) : Prop :=
  sealed stop ∧ stop.escapes active = true

section Lost

variable (sealed : Stop → Prop) (active : Activity)

theorem lost_silent : Lost sealed (.silent :: active) = Lost sealed active := by
  funext stop
  cases stop <;> simp [Lost, Stop.escapes, Activity.letsContinue]

theorem lost_unsilent : Lost sealed (.unsilent :: active) = Lost sealed active := by
  funext stop
  cases stop <;> simp [Lost, Stop.escapes, Activity.letsContinue]

theorem lost_iteration :
    Lost sealed (.iteration :: .loop :: active) = Lost sealed (.loop :: active) := by
  funext stop
  cases stop <;> simp [Lost, Stop.escapes, Activity.letsContinue]

end Lost

namespace Passed

variable {sealed : Stop → Prop} {active : Activity}
variable {ending ending' : Ending σ Unit} {lost : Stop → Prop}

theorem afterIteration (passed : Passed (Lost sealed (.loop :: active)) cut ending ending') :
    Passed (Lost sealed (.condition :: .loop :: active)) cut (afterIteration ending)
      (Vimlet.afterIteration ending') := by
  refine passed.through id (fun value session => ⟨value, session, rfl⟩) (fun _ => rfl) ?_
  intro stop session
  cases stop with
  | continuing =>
    exact .inr ⟨by simp [Lost, Stop.escapes, Activity.letsContinue], fun _ _ => by rintro ⟨⟩⟩
  | _ => exact .inl ⟨rfl, by simp [Lost, Stop.escapes]⟩

theorem afterLoop (passed : Passed (Lost sealed (.condition :: .loop :: active)) cut ending ending') :
    Passed (Lost sealed active) cut (afterLoop ending) (Vimlet.afterLoop ending') := by
  refine passed.through id (fun value session => ⟨value, session, rfl⟩) (fun _ => rfl) ?_
  intro stop session
  cases stop with
  | breaking => exact .inr ⟨by simp [Lost, Stop.escapes], fun _ _ => by rintro ⟨⟩⟩
  | _ => exact .inl ⟨rfl, by simp [Lost, Stop.escapes, Activity.letsContinue]⟩

theorem afterCall (passed : Passed (Lost sealed (.call :: active)) cut ending ending') :
    Passed (Lost sealed active) cut (afterCall ending) (Vimlet.afterCall ending') := by
  refine passed.through id (fun _ session => ⟨_, session, rfl⟩) (fun _ => rfl) ?_
  intro stop session
  cases stop with
  | returning value => exact .inr ⟨by simp [Lost, Stop.escapes], fun _ _ => by rintro ⟨⟩⟩
  | _ => exact .inl ⟨rfl, by simp [Lost, Stop.escapes, Activity.letsContinue]⟩

theorem afterStop (change : Heap → Heap) {ending ending' : Ending σ α}
    (passed : Passed lost cut ending ending') :
    Passed lost cut (afterStop change ending) (Vimlet.afterStop change ending') :=
  passed.through _ (fun value session => ⟨value, session, rfl⟩) (fun _ => rfl)
    fun _ _ => .inl ⟨rfl, .rfl⟩

variable (signals : ∀ {stop}, lost stop → stop.isSignal = true)
include signals

theorem afterSwallow (bang : Bool) (passed : Passed lost cut ending ending') :
    Passed lost cut (afterSwallow bang ending) (Vimlet.afterSwallow bang ending') := by
  refine passed.through id (fun value session => ⟨value, session, rfl⟩) (fun _ => rfl) ?_
  intro stop session
  cases stop with
  | fault cause =>
    refine .inr ⟨(nomatch signals ·), fun reason after ended => ?_⟩
    dsimp only [Vimlet.afterSwallow] at ended
    split at ended <;> cases ended
    exact (nomatch signals ·)
  | _ => exact .inl ⟨rfl, .rfl⟩

theorem afterScript (passed : Passed lost cut ending ending') :
    Passed lost cut (afterScript ending) (Vimlet.afterScript ending') := by
  refine passed.through id (fun value session => ⟨value, session, rfl⟩) (fun _ => rfl) ?_
  intro stop session
  cases stop with
  | fault cause =>
    cases cause with
    | exit => exact .inr ⟨(nomatch signals ·), fun _ _ => by rintro ⟨⟩⟩
    | _ => exact .inl ⟨rfl, .rfl⟩
  | _ => exact .inl ⟨rfl, .rfl⟩

theorem afterEnclosed (before : Session σ) {ending ending' : Ending σ α}
    (passed : Passed lost cut ending ending') :
    Passed lost cut (afterEnclosed before ending) (Vimlet.afterEnclosed before ending') := by
  refine passed.through (fun after => { after with runs := before.runs })
    (fun value session => ⟨value, _, rfl⟩) (fun _ => rfl) ?_
  intro stop session
  cases stop with
  | tooDeep =>
    refine .inr ⟨(nomatch signals ·), fun reason after ended => ?_⟩
    dsimp only [Vimlet.afterEnclosed] at ended
    split at ended <;> cases ended <;> exact (nomatch signals ·)
  | _ => exact .inl ⟨rfl, .rfl⟩

theorem of_ordinary (ordinary : Ordinary act) (session : Session σ) :
    Passed lost cut (act session) (act session) := by
  refine .refl fun stop after ended gone => ?_
  have unseen := ordinary ended
  rw [signals gone] at unseen
  cases unseen

end Passed

/-- A watched computation of the interpreter goes like the plain one while an invariant holds. -/
structure Following (lasts : Session σ → Session σ → Prop) (holds : Session σ → Prop)
    (lost cut : Stop → Prop) (act act' : Run σ α) : Prop where
  kept : Kept lasts act'
  passed {session : Session σ} : holds session → Passed lost cut (act session) (act' session)

namespace Following

variable {holds : Session σ → Prop} {lost : Stop → Prop}

theorem same (signals : ∀ {stop}, lost stop → stop.isSignal = true) (kept : Kept lasts act)
    (ordinary : Ordinary act) : Following lasts holds lost cut act act where
  kept := kept
  passed _ := .of_ordinary signals ordinary _

theorem bind (lasting : Lasting host lasts)
    (lasts_holds : ∀ {session after}, lasts session after → holds session → holds after)
    (first : Following lasts holds lost cut act act')
    (second : ∀ value, Following lasts holds lost cut (next value) (next' value)) :
    Following lasts holds lost cut (act >>= next) (act' >>= next') where
  kept := lasting.bind first.kept fun value => (second value).kept
  passed {session} holds_session := by
    refine .bind (first.passed holds_session) fun value after ended => ?_
    have lasted := first.kept session
    rw [ended] at lasted
    exact (second value).passed (lasts_holds lasted holds_session)

theorem inspect {next next' : Session σ → Run σ α}
    (second : ∀ session, Following lasts holds lost cut (next session) (next' session)) :
    Following lasts holds lost cut (get >>= next) (get >>= next') where
  kept := Lasting.inspect fun session => (second session).kept
  passed {session} holds_session := (second session).passed holds_session

end Following

/-! ### The interpreter -/

/-- A watch lets a signal pass, or it stops the run if the signal is one that is cut off. -/
def Watch.Meets (watch : Watch σ) (sealed cut : Stop → Prop) (active : Activity) (stop : Stop)
    (session : Session σ) : Prop :=
  (Lost sealed active stop ∧
      (cut stop → watch.signal active stop session = .error .internal session)) ∨
    (¬Lost sealed active stop ∧ watch.signal active stop session = .ok () session)

/-- An invariant of sessions, given what is active in them, that lasts. -/
structure Steady (host : Host σ) (lasts : Session σ → Session σ → Prop)
    (holds : Activity → Session σ → Prop) : Prop where
  lasting : WalkLasting host lasts
  lasts_holds {active : Activity} {session after} :
    lasts session after → holds active session → holds active after
  script {active : Activity} {session} (id : ScopeId) :
    holds active session → holds active (session.setScript (some id))
  callback {active : Activity} {session} (key value : Value) :
    holds active session → holds active (session.setCallback key value)
  start {active : Activity} {session} :
    holds active session → holds active session.begin
  call {active : Activity} {session} :
    (session.functionDepth : Int) < session.maxFunctionDepth → holds active session →
    holds (.call :: active) session.enterFunction
  silent {active : Activity} {session} :
    holds active session → holds (.silent :: active) (session.setSilence host (session.silence + 1))
  unsilent {active : Activity} {session} :
    holds active session → holds (.unsilent :: active) (session.setSilence host 0)
  loop {active : Activity} {session} :
    holds active session → holds (.loop :: active) session.enterLoop
  condition {active : Activity} {session} :
    holds (.loop :: active) session → holds (.condition :: .loop :: active) session
  iteration {active : Activity} {session} :
    holds (.loop :: active) session → holds (.iteration :: .loop :: active) (session.enter false)

/-- A lasting invariant under which a watch does nothing but stop the run at certain signals. -/
structure Tracking (host : Host σ) (watch : Watch σ) (lasts : Session σ → Session σ → Prop)
    (holds : Activity → Session σ → Prop) (sealed cut : Stop → Prop) : Prop
    extends Steady host lasts holds where
  line {active : Activity} {session} (line : Line) :
    holds active session → watch.line active line session = .ok () session
  expression {active : Activity} {session} (text : String) :
    holds active session → watch.expression active text session = .ok () session
  handler {active : Activity} {session} :
    holds active session → watch.handler active session = .ok () session
  returning {active : Activity} {session after} (value : Value) :
    holds active session → session.functionDepth ≠ 0 → lasts session after →
    watch.Meets sealed cut active (.returning value) after
  breaking {active : Activity} {session} :
    holds active session → session.loopDepth ≠ 0 → watch.Meets sealed cut active .breaking session
  continuing {active : Activity} {session} :
    holds active session → session.loopDepth ≠ 0 → watch.Meets sealed cut active .continuing session
  command {active : Activity} {session after stop id range bang params} :
    holds active session → host.command id range bang params session = .error stop after →
    stop.isSignal = true → watch.Meets sealed cut active stop after
  function {active : Activity} {session after stop id args} :
    holds active session → host.function id args session = .error stop after →
    stop.isSignal = true → watch.Meets sealed cut active stop after

theorem Lost.isSignal {sealed : Stop → Prop} {active} (gone : Lost sealed active stop) :
    stop.isSignal = true :=
  Stop.isSignal_of_escapes gone.2

theorem Lost.of_ordinary {sealed : Stop → Prop} (ordinary : stop.isSignal = false) :
    ¬Lost sealed active stop :=
  fun gone => by simp [gone.isSignal] at ordinary

namespace Watch

variable {sealed : Stop → Prop} {active : Activity}

/-- A computation that ends with a signal of its own, which the watch is shown. -/
theorem Meets.shown {raised : Stop → Bool} {after}
    (meets : watch.Meets sealed cut active stop after) (raises : raised stop = true)
    (ended : act session = .error stop after) :
    Passed (Lost sealed active) cut (watch.shown active raised act session)
      (.error stop after) := by
  rw [watch.shown_error active ended, if_pos raises]
  obtain ⟨gone, stopped⟩ | ⟨kept, passes⟩ := meets
  · exact .lost gone fun cuts => bind_error (stopped cuts)
  · rw [bind_ok passes]
    exact .error after kept

theorem passed_guard (silent : watch.handler active session = .ok () session)
    (meets : ∀ stop after, act session = .error stop after → stop.isSignal = true →
      watch.Meets sealed cut active stop after) :
    Passed (Lost sealed active) cut (watch.guard active act session) (act session) := by
  rw [Watch.guard, bind_ok silent]
  cases ended : act session with
  | ok value after =>
    rw [watch.shown_ok active ended]
    exact .ok value after
  | error stop after =>
    cases signal : stop.isSignal with
    | true => exact (meets stop after ended signal).shown signal ended
    | false =>
      rw [watch.shown_error active ended, signal]
      exact .error after (Lost.of_ordinary signal)

end Watch

namespace Tracking

variable {sealed : Stop → Prop} (tracking : Tracking host watch lasts holds sealed cut)
include tracking
variable {active : Activity} {engine engine' : Engine σ} {body body' : Run σ Unit}

/-- Watched computations go like plain ones, given what is active. -/
abbrev Follows (_ : Tracking host watch lasts holds sealed cut) (active : Activity) :
    Relation σ :=
  fun _ act act' => Following lasts (holds active) (Lost sealed active) cut act act'

theorem same (kept : Kept lasts act) (ordinary : Ordinary act) :
    tracking.Follows active act act := .same Lost.isSignal kept ordinary

/-! ### Evaluations -/

theorem congruence (active : Activity) :
    Congruence host (watch.guard active) (tracking.Follows active) where
  pure value := tracking.same (tracking.lasting.pure value) (.pure value)
  bind := .bind tracking.lasting.toLasting tracking.lasts_holds
  throw ordinary := tracking.same (tracking.lasting.throw _) (.throw ordinary)
  inspect _ := .inspect
  onHeap step := tracking.same (tracking.lasting.onHeap _) (onHeap_ordinary step.ordinary)
  echo message := tracking.same (tracking.lasting.echoed message) (.modify _)
  note message := tracking.same (tracking.lasting.note message) (.modify _)
  assign name value := tracking.same (tracking.lasting.assigned name value)
    (assign_ordinary name value)
  unlet name := tracking.same (tracking.lasting.removed name) (unlet_ordinary name)
  declare name value := tracking.same (tracking.lasting.declared name value)
    (declare_ordinary name value)
  script id _ _ acts :=
    { kept := tracking.lasting.inScript id acts.kept
      passed := fun held => (acts.passed (tracking.script id held)).onLeft _ }
  callback key value _ _ acts :=
    { kept := tracking.lasting.inCallback key value acts.kept
      passed := fun held => (acts.passed (tracking.callback key value held)).onLeft _ }
  stop change _ _ acts :=
    { kept := tracking.lasting.stopped change acts.kept
      passed := fun held => (acts.passed held).afterStop change }
  enclosed acts :=
    { kept := tracking.lasting.runEnclosed acts.kept
      passed := fun {session} held => by
        rw [enclosed_eq_after, enclosed_eq_after]
        exact (acts.passed (tracking.start held)).afterEnclosed Lost.isSignal session }
  command id range bang params :=
    { kept := tracking.lasting.command id range bang params
      passed := fun held => Watch.passed_guard (tracking.handler held) fun _ _ =>
        tracking.command held }
  function id args :=
    { kept := tracking.lasting.function id args
      passed := fun held => Watch.passed_guard (tracking.handler held) fun _ _ =>
        tracking.function held }

/-! ### Functions and simple statements -/

theorem inFunction (bodies : tracking.Follows (.call :: active) body body') :
    tracking.Follows active (inFunction body) (inFunction body') where
  kept := tracking.lasting.inFunction bodies.kept
  passed {session} held := by
    unfold Vimlet.inFunction
    split
    · exact (bodies.passed (tracking.call ‹_› held)).afterCall.onLeft _
    · exact .error session (Lost.of_ordinary rfl)

theorem inSilence (bang : Bool) (bodies : tracking.Follows (.silent :: active) body body') :
    tracking.Follows active (inSilence host bang body) (inSilence host bang body') where
  kept := tracking.lasting.inSilence bang bodies.kept
  passed held := by
    have inside := bodies.passed (tracking.silent held)
    rw [lost_silent] at inside
    exact (inside.afterSwallow Lost.isSignal bang).onLeft _

theorem outOfSilence (bodies : tracking.Follows (.unsilent :: active) body body') :
    tracking.Follows active (outOfSilence host body) (outOfSilence host body') where
  kept := tracking.lasting.outOfSilence bodies.kept
  passed held := by
    have inside := bodies.passed (tracking.unsilent held)
    rw [lost_unsilent] at inside
    exact inside.onLeft _

theorem executeReturn (line : Line)
    (evals : tracking.Follows active (engine.eval line.params) (engine'.eval line.params)) :
    tracking.Follows active
      (watch.shown active (Stop.raisedBy "return") (executeReturn engine line))
      (executeReturn engine' line) where
  kept := tracking.lasting.executeReturn evals.kept
  passed {session} holds_session := by
    by_cases none_active : session.functionDepth = 0
    · rw [watch.shown_error active (executeReturn_of_none none_active engine line),
        executeReturn_of_none none_active]
      exact .error session (Lost.of_ordinary rfl)
    · have values : tracking.Follows active (returnValue engine line)
          (returnValue engine' line) := by
        unfold returnValue
        split
        · exact tracking.same (tracking.lasting.pure _) (.pure _)
        · exact evals
      have opened := executeReturn_of_active none_active engine line
      have lasted := values.kept session
      have passed := values.passed holds_session
      rw [executeReturn_of_active none_active engine']
      generalize ended : returnValue engine line session = ending at passed
      generalize ended' : returnValue engine' line session = ending' at passed lasted
      cases passed with
      | ok value after =>
        rw [bind_ok ended] at opened
        rw [bind_ok ended']
        exact (tracking.returning value holds_session none_active lasted).shown rfl opened
      | @error stop after kept =>
        rw [bind_error ended] at opened
        rw [bind_error ended']
        cases stop with
        | returning value =>
          exact (tracking.returning value holds_session none_active lasted).shown rfl opened
        | _ =>
          rw [watch.shown_error active opened]
          exact .error after kept
      | lost gone stopped =>
        rw [bind_error ended']
        refine .lost gone fun cuts => ?_
        rw [stopped cuts] at ended
        rw [bind_error ended] at opened
        rw [watch.shown_error active opened]
        rfl

theorem executeLeave {keyword} (raised : stop.raisedBy keyword = true)
    (meets : ∀ {session}, holds active session → session.loopDepth ≠ 0 →
      watch.Meets sealed cut active stop session) :
    tracking.Follows active
      (watch.shown active (Stop.raisedBy keyword) (executeLeave keyword stop))
      (executeLeave keyword stop) where
  kept := tracking.lasting.executeLeave keyword stop
  passed {session} holds_session := by
    by_cases none_active : session.loopDepth = 0
    · rw [watch.shown_error active (executeLeave_of_none none_active keyword stop),
        executeLeave_of_none none_active]
      exact .error session (Lost.of_ordinary rfl)
    · rw [executeLeave_of_active none_active]
      exact (meets holds_session none_active).shown raised
        (executeLeave_of_active none_active keyword stop)

/-! ### Loops -/

/-- The iterations of a loop go like plain ones. Nothing in them catches what their conditions do
not. -/
abbrev Repeats (_ : Tracking host watch lasts holds sealed cut) (active : Activity) :
    Relation σ :=
  fun _ act act' => Following lasts (holds (.loop :: active))
    (Lost sealed (.condition :: .loop :: active)) cut act act'

theorem repetition (active : Activity) :
    Repetition (tracking.Follows (.condition :: .loop :: active)) (tracking.Follows (.loop :: active))
      (tracking.Follows (.iteration :: .loop :: active)) (tracking.Repeats active) where
  pure := .same Lost.isSignal (tracking.lasting.pure ()) (.pure ())
  bind := .bind tracking.lasting.toLasting tracking.lasts_holds
  late := .same Lost.isSignal (Lasting.inspect fun _ => tracking.lasting.fault _)
    (.inspect fun _ => .throw rfl)
  checkPatience := .same Lost.isSignal tracking.lasting.checkPatience checkPatience_ordinary
  asked acts := ⟨acts.kept, fun held => acts.passed (tracking.condition held)⟩
  iterated acts :=
    { kept := BlockLasting.iteration acts.kept
      passed := fun held => by
        rw [iteration_eq, iteration_eq]
        exact (acts.passed held).afterIteration }
  framed acts :=
    { kept := tracking.lasting.inFrame acts.kept
      passed := fun held => by
        have inside := acts.passed (tracking.iteration held)
        rw [lost_iteration] at inside
        exact inside.afterIteration.onLeft _ }

theorem looped (acts : tracking.Repeats active body body') :
    tracking.Follows active (Vimlet.loop body) (Vimlet.loop body') where
  kept := tracking.lasting.runLoop acts.kept
  passed held := by
    rw [loop_eq, loop_eq]
    exact (acts.passed (tracking.loop held)).afterLoop.onLeft _

/-! ### Everything that the interpreter runs -/

theorem walkCongruence : WalkCongruence host watch tracking.Follows where
  steps := tracking.congruence
  call := tracking.inFunction
  silent bang _ _ := tracking.inSilence bang
  unsilent := tracking.outOfSilence
  executeReturn := tracking.executeReturn
  executeBreak _ := tracking.executeLeave rfl tracking.breaking
  executeContinue _ := tracking.executeLeave rfl tracking.continuing
  line _ line :=
    { kept := tracking.lasting.pure ()
      passed := fun {session} holds_session =>
        (tracking.line line holds_session).symm ▸ .ok () session }
  expression _ text :=
    { kept := tracking.lasting.pure ()
      passed := fun {session} holds_session =>
        (tracking.expression text holds_session).symm ▸ .ok () session }
  checkPatience _ := tracking.same tracking.lasting.checkPatience checkPatience_ordinary
  setLine _ line := tracking.same (tracking.lasting.setLine line) (.modify _)
  define _ header body := by
    refine tracking.same (tracking.lasting.defineFunction header body) ?_
    refine .inspect fun _ => .bind (ofExcept_ordinary _) fun _ => ?_
    exact .bind (.modify _) fun _ => .modify _
  whileLoop _ _ _ asked bodies := .inspect fun _ =>
    tracking.looped ((tracking.repetition _).repeatWhile asked bodies _)
  forLoop items bodies := tracking.looped ((tracking.repetition _).repeatFor bodies items)

theorem performWith (engines : engine.Related (tracking.Follows []) engine') (request : Request)
    (holds_begun : holds [] session.begin) :
    Passed (Lost sealed []) cut (request.performWith engine session)
      (request.performWith engine' session) := by
  have enclosed {α : Type} {act act' : Run σ α}
      (passed : Passed (Lost sealed []) cut (act session.begin) (act' session.begin)) :
      Passed (Lost sealed []) cut (Run.enclosed act session) (Run.enclosed act' session) := by
    rw [enclosed_eq_after, enclosed_eq_after]
    exact passed.afterEnclosed Lost.isSignal session
  cases request with
  | run script =>
    refine .bind (enclosed ?_) fun _ after _ => .ok _ after
    rw [finishing_eq, finishing_eq]
    exact ((engines.run _).passed holds_begun).afterScript Lost.isSignal
  | eval text => exact enclosed ((engines.eval text).passed holds_begun)
  | call name args => exact enclosed ((engines.call name args).passed holds_begun)

/-- While the invariant holds, a watched request goes like the plain one, unless that ends with a
signal that is cut off. -/
theorem request (request : Request) (holds_begun : holds [] session.begin) :
    Passed (Lost sealed []) cut (request.watched host watch session)
      (request.perform host session) := by
  rw [Request.perform_eq]
  exact tracking.performWith (tracking.walkCongruence.engine maxNesting []) request holds_begun

end Tracking

/-! ### What a request comes by -/

theorem Watch.meets_of_silent (silent : watch.signal active stop session = .ok () session) :
    watch.Meets (fun _ => False) cut active stop session :=
  .inr ⟨fun gone => gone.1, silent⟩

namespace Steady

variable (steady : Steady host lasts holds)
include steady

/-- A watch that does nothing while the invariant holds, and nothing at signals, changes nothing. -/
theorem watched_eq
    (lines : ∀ active line there, holds active there → watch.line active line there = .ok () there)
    (expressions : ∀ active text there, holds active there →
      watch.expression active text there = .ok () there)
    (handlers : ∀ active there, holds active there → watch.handler active there = .ok () there)
    (signals : ∀ active stop there, watch.signal active stop there = .ok () there)
    (request : Request) (holds_begun : holds [] session.begin) :
    request.watched host watch session = request.perform host session := by
  have tracking : Tracking host watch lasts holds (fun _ => False) fun _ => False :=
    { toSteady := steady
      line := fun line held => lines _ line _ held
      expression := fun text held => expressions _ text _ held
      handler := fun held => handlers _ _ held
      returning := fun _ _ _ _ => Watch.meets_of_silent (signals _ _ _)
      breaking := fun _ _ => Watch.meets_of_silent (signals _ _ _)
      continuing := fun _ _ => Watch.meets_of_silent (signals _ _ _)
      command := fun _ _ _ => Watch.meets_of_silent (signals _ _ _)
      function := fun _ _ _ => Watch.meets_of_silent (signals _ _ _) }
  exact (tracking.request request holds_begun).eq_of_forall_not fun _ _ _ gone => gone.1

theorem everyLine {property : Activity → Line → Session σ → Prop}
    (implied : ∀ active line there, holds active there → property active line there)
    (request : Request) (holds_begun : holds [] session.begin) :
    request.EveryLine host session property := by
  intro watcher silent
  refine steady.watched_eq (fun active line there held => ?_) (fun _ _ _ _ => rfl)
    (fun _ _ _ => rfl) (fun _ _ _ => rfl) request holds_begun
  exact silent active line there (implied active line there held)

theorem everyHandler {property : Activity → Session σ → Prop}
    (implied : ∀ active there, holds active there → property active there) (request : Request)
    (holds_begun : holds [] session.begin) : request.EveryHandler host session property := by
  intro watcher silent
  refine steady.watched_eq (fun _ _ _ _ => rfl) (fun _ _ _ _ => rfl)
    (fun active there held => ?_) (fun _ _ _ => rfl) request holds_begun
  exact silent active there (implied active there held)

end Steady

end Vimlet
