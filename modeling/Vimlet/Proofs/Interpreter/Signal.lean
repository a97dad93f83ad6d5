import Vimlet.Proofs.Session.Balance

/-!
# Signals stay inside

A `return` ends the innermost active function, a `break` the innermost active loop of that function,
and a `continue` an iteration of it. The counters of a session tell whether there is one. The
condition of a `while` statement belongs to the loop, but not to an iteration of it.
-/

namespace Vimlet

open Session

variable {σ α β : Type}
variable {start session after : Session σ} {active : Activity} {stop : Stop}

/-! ### What can be left -/

/-- The innermost of the active calls, loops and conditions is a condition. -/
def Activity.inCondition (active : Activity) : Bool :=
  active.find? (· ∈ [.call, .loop, .condition]) == some .condition

namespace Session

/-- A function is active since the start, or it was active then. -/
def InFunction (start : Session σ) (active : Activity) : Prop :=
  .call ∈ active ∨ start.functionDepth ≠ 0

/-- A loop is active in the innermost function since the start, or it was active then and the
function is the same. -/
def InLoop (start : Session σ) (active : Activity) : Prop :=
  .loop ∈ active.takeWhile (· ≠ .call) ∨ .call ∉ active ∧ start.loopDepth ≠ 0

instance (start : Session σ) (active : Activity) : Decidable (start.InFunction active) :=
  inferInstanceAs (Decidable (_ ∨ _))

instance (start : Session σ) (active : Activity) : Decidable (start.InLoop active) :=
  inferInstanceAs (Decidable (_ ∨ _))

end Session

/-- There is something active that the signal ends. -/
def Stop.Caught (start : Session σ) (active : Activity) : Stop → Prop
  | .returning _ => start.InFunction active
  | .breaking | .continuing => start.InLoop active
  | .fault _ | .internal | .tooDeep => True

theorem Activity.loops_ne_zero {start} :
    active.loops start ≠ 0 ↔
      .loop ∈ active.takeWhile (· ≠ .call) ∨ .call ∉ active ∧ start ≠ 0 := by
  induction active with
  | nil => simp [loops]
  | cons activation outer ih => cases activation <;> simp_all [loops]

/-- A `continue` that gets out of a loop was raised in a condition. -/
theorem Activity.inCondition_of_letsContinue (in_loop : .loop ∈ active.takeWhile (· ≠ .call))
    (escapes : active.letsContinue = true) : active.inCondition = true := by
  unfold inCondition
  induction active with
  | nil => simp at in_loop
  | cons activation outer ih =>
    cases activation with
    | call => simp at in_loop
    | loop => simp [letsContinue] at escapes
    | condition => rfl
    | iteration | silent | unsilent =>
      simp only [letsContinue] at escapes
      simpa using ih (by simpa using in_loop) escapes

theorem Stop.escapes_nil (stop : Stop) : stop.escapes [] = stop.isSignal := by
  cases stop <;> rfl

/-- If nothing was active at the start, only a `continue` in a condition can get out. -/
theorem Stop.Caught.inCondition (no_function : start.functionDepth = 0)
    (no_loop : start.loopDepth = 0) (caught : stop.Caught start active)
    (escapes : stop.escapes active = true) : stop = .continuing ∧ active.inCondition = true := by
  cases stop with
  | returning value => simp_all [Caught, InFunction, Stop.escapes]
  | breaking =>
    simp only [Caught, InLoop, no_loop, ne_eq, not_true, and_false, or_false] at caught
    have inside := (List.takeWhile_sublist _).subset caught
    simp_all [Stop.escapes]
  | continuing =>
    simp only [Caught, InLoop, no_loop, ne_eq, not_true, and_false, or_false] at caught
    exact ⟨rfl, Activity.inCondition_of_letsContinue caught escapes⟩
  | fault | internal | tooDeep => cases escapes

/-! ### What statements raise -/

/-- The session in which a statement does what it is for. -/
def Session.executing (line : Line) (session : Session σ) : Session σ :=
  Session.noted ("LINE " ++ Nat.repr line.number ++ " " ++ line.text)
    { session with currentLine := some line }

theorem Session.executing_balanced (session : Session σ) (line : Line) :
    session.Balanced (session.executing line) := by
  unfold executing noted
  split <;> exact ⟨rfl, rfl, rfl, rfl, rfl, rfl, rfl, rfl, rfl⟩

/-- Raises a signal, or fails if there is nothing that it could end. -/
def raise (active : Prop) [Decidable active] (keyword : String) (signal : Run σ Stop) :
    Run σ Unit :=
  if active then signal >>= throw else Run.fault (.unexpectedKeyword keyword)

/-- The statements that leave a function or a loop raise their signals if there is one, and fail if
there is none. -/
structure LeavesOnly (host : Host σ) (start : Session σ) (active : Activity) (line : Line)
    (session : Session σ) : Prop where
  returns (engine : Engine σ) :
    executeSimple host engine "return" line session =
      raise (start.InFunction active) "return" (.returning <$> returnValue engine line)
        (session.executing line)
  breaks (engine : Engine σ) :
    executeSimple host engine "break" line session =
      raise (start.InLoop active) "break" (pure .breaking) (session.executing line)
  continues (engine : Engine σ) :
    executeSimple host engine "continue" line session =
      raise (start.InLoop active) "continue" (pure .continuing) (session.executing line)

/-- The counters of a session allow a signal to be raised. -/
def Stop.Allowed (session : Session σ) : Stop → Prop
  | .returning _ => session.functionDepth ≠ 0
  | .breaking | .continuing => session.loopDepth ≠ 0
  | .fault _ | .internal | .tooDeep => True

/-- The handlers of a host end with signals only where scripts may. -/
structure Host.Heeds (host : Host σ) : Prop where
  command {id range bang params session after stop} :
    host.command id range bang params session = .error stop after → stop.Allowed session
  function {id args session after stop} :
    host.function id args session = .error stop after → stop.Allowed session

theorem Recorder.host_heeds : Recorder.host.Heeds where
  command ended := by cases ended; trivial
  function ended := by cases ended; trivial

namespace Session.Level

variable (level : start.Level active session)
include level

theorem inFunction : start.InFunction active ↔ session.functionDepth ≠ 0 := by
  rw [level.functionDepth, InFunction, ← List.count_pos_iff]
  omega

theorem inLoop : start.InLoop active ↔ session.loopDepth ≠ 0 := by
  rw [level.loopDepth]
  exact Activity.loops_ne_zero.symm

/-- The counters tell what is active. -/
theorem caught (allowed : stop.Allowed session) : stop.Caught start active := by
  cases stop with
  | returning value => exact level.inFunction.mpr allowed
  | breaking | continuing => exact level.inLoop.mpr allowed
  | fault | internal | tooDeep => trivial

theorem executeLeave_eq (keyword : String) (stop : Stop) :
    executeLeave keyword stop session =
      raise (start.InLoop active) keyword (pure stop) session := by
  by_cases looped : start.InLoop active
  · rw [executeLeave_of_active (level.inLoop.mp looped), raise, if_pos looped]
    rfl
  · have none_active : session.loopDepth = 0 := by
      by_contra some_active
      exact looped (level.inLoop.mpr some_active)
    rw [executeLeave_of_none none_active, raise, if_neg looped]
    rfl

theorem executeReturn_eq (engine : Engine σ) (line : Line) :
    executeReturn engine line session =
      raise (start.InFunction active) "return" (.returning <$> returnValue engine line)
        session := by
  by_cases called : start.InFunction active
  · rw [executeReturn_of_active (level.inFunction.mp called), raise, if_pos called, bind_map_left]
  · have none_active : session.functionDepth = 0 := by
      by_contra some_active
      exact called (level.inFunction.mpr some_active)
    rw [executeReturn_of_none none_active, raise, if_neg called]
    rfl

theorem leavesOnly (host : Host σ) (line : Line) : LeavesOnly host start active line session := by
  have there := level.of_balanced (session.executing_balanced line)
  exact
    { returns := fun engine => there.executeReturn_eq engine line
      breaks := fun engine => there.executeLeave_eq "break" .breaking
      continues := fun engine => there.executeLeave_eq "continue" .continuing }

end Session.Level

/-- A watch that stops the run at a `continue` that is raised in a condition and gets out. -/
def Watch.atConditions : Watch σ where
  signal
    | active, .continuing =>
      if active.letsContinue && active.inCondition then throw .internal else pure ()
    | _, _ => pure ()

section Requests

variable {host : Host σ} (restores : host.Restores)
include restores

theorem Session.Fit.everyLine_leavesOnly (fit : session.Fit) (request : Request) :
    request.EveryLine host session fun active line there =>
      ∀ patience, LeavesOnly host session active line (there.withPatience patience) := by
  refine (Level.steady restores session).everyLine ?_ request fit.level
  intro active line there level patience
  have later : there.Balanced (there.withPatience patience) := { Balanced.refl there with }
  exact (level.of_balanced later).leavesOnly host line

variable (heeds : host.Heeds)
include heeds

/-- A watch has to do only with signals that something catches. -/
theorem Session.signal_tracking (watcher : Activity → Stop → Run σ Unit) (sealed cut : Stop → Prop)
    (meets : ∀ active stop there, stop.Caught session active →
      ({ signal := watcher } : Watch σ).Meets sealed cut active stop there) :
    Tracking host { signal := watcher } Restored session.Level sealed cut :=
  { Level.steady restores session with
    line := fun _ _ => rfl
    expression := fun _ _ => rfl
    handler := fun _ => rfl
    returning := fun _ level called _ => meets _ _ _ (level.inFunction.mpr called)
    breaking := fun level looped => meets _ _ _ (level.inLoop.mpr looped)
    continuing := fun level looped => meets _ _ _ (level.inLoop.mpr looped)
    command := fun level ended _ => meets _ _ _ (level.caught (heeds.command ended))
    function := fun level ended _ => meets _ _ _ (level.caught (heeds.function ended)) }

theorem Session.Fit.everySignal_caught (fit : session.Fit) (request : Request) :
    request.EverySignal host session fun active stop _ => stop.Caught session active := by
  intro watcher silent
  have tracking := signal_tracking restores heeds watcher (fun _ => False) (fun _ => False)
    fun active stop there caught => Watch.meets_of_silent (silent active stop there caught)
  exact (tracking.request request fit.level).eq_of_forall_not fun _ _ _ gone => gone.1

/-- If a signal gets out of an outermost request, it is a `continue` that was raised in a condition.
-/
theorem Session.Fit.stopped_of_signal (fit : session.Fit) (outermost : session.runs = 0)
    (request : Request) (ended : request.perform host session = .error stop after)
    (signal : stop.isSignal = true) :
    request.watched host .atConditions session = .error .internal after := by
  obtain ⟨no_function, no_loop, _⟩ := fit.idle outermost
  have tracking := signal_tracking restores heeds Watch.atConditions.signal
    (fun _ => True) (fun _ => True) fun active stop there caught => by
      by_cases escapes : stop.escapes active = true
      · obtain ⟨rfl, in_condition⟩ := caught.inCondition no_function no_loop escapes
        refine .inl ⟨⟨trivial, escapes⟩, fun _ => ?_⟩
        simp only [Stop.escapes] at escapes
        simp only [Watch.atConditions, escapes, in_condition]
        rfl
      · refine .inr ⟨fun gone => escapes gone.2, ?_⟩
        cases stop with
        | continuing =>
          simp only [Stop.escapes] at escapes
          simp only [Watch.atConditions, escapes]
          rfl
        | _ => rfl
  have passed := tracking.request request fit.level
  rw [ended] at passed
  generalize watched :
    Request.watched host { signal := Watch.atConditions.signal } request session = ending at passed
  cases passed with
  | error _ kept => exact absurd ⟨trivial, stop.escapes_nil.trans signal⟩ kept
  | lost _ stopped => exact watched.trans (stopped trivial)

theorem Session.Fit.perform_ordinary (fit : session.Fit) (outermost : session.runs = 0)
    (request : Request)
    (conditions : request.EverySignal host session fun active stop _ =>
      stop = .continuing → active.inCondition = false)
    (ended : request.perform host session = .error stop after) : stop.isSignal = false := by
  by_contra signal
  have stopped := fit.stopped_of_signal restores heeds outermost request ended
    (by simpa using signal)
  have same : request.watched host .atConditions session = request.perform host session := by
    refine conditions Watch.atConditions.signal fun active stop there elsewhere => ?_
    cases stop with
    | continuing =>
      simp only [Watch.atConditions, elsewhere rfl, Bool.and_false]
      rfl
    | _ => rfl
  rw [same, ended] at stopped
  cases stopped
  exact signal rfl

end Requests

/-! ### What signals end -/

/-- The value that a function gets from a signal. -/
def Stop.returned : Stop → Option Value
  | .returning value => some value
  | _ => none

def Stop.broken : Stop → Option Unit
  | .breaking => some ()
  | _ => none

def Stop.continued : Stop → Option Unit
  | .continuing => some ()
  | _ => none

/-- A watch that sees the signals of some kind that get out. -/
def Watch.seeing (kind : Stop → Option α) (seen : Stop → Run σ Unit) : Watch σ where
  signal active stop := if (kind stop).isSome && stop.escapes active then seen stop else pure ()

/-- How a computation ends that catches signals: as under every watch, for none is raised, or with
the result of a signal. After the signal it does only what it does as well if a watch stops the run
there. -/
def Catches (kind : Stop → Option α) (watched : (Stop → Run σ Unit) → Ending σ α)
    (plain : Ending σ α) : Prop :=
  (∀ seen, watched seen = plain) ∨
    ∃ stop value after, kind stop = some value ∧ plain = .ok value after ∧
      ∀ seen, seen stop = throw .internal → watched seen = .error .internal after

/-- Nothing is asked of sessions. -/
theorem WalkLasting.always (host : Host σ) : WalkLasting host fun _ _ => True := by
  refine ⟨⟨?_, ?_, ?_, ?_, ?_⟩, ?_⟩
  · constructor <;> intros <;> first | trivial | exact fun _ => trivial
  all_goals intros; trivial

theorem Watch.seeing_tracking (host : Host σ) (kind : Stop → Option α) (seen : Stop → Run σ Unit) :
    Tracking host (Watch.seeing kind seen) (fun _ _ => True) (fun _ _ => True)
      (fun stop => (kind stop).isSome = true) fun stop => seen stop = throw .internal := by
  have meets (active : Activity) (stop : Stop) (session : Session σ) :
      (Watch.seeing kind seen).Meets (fun stop => (kind stop).isSome = true)
        (fun stop => seen stop = throw .internal) active stop session := by
    by_cases gone : Lost (fun stop => (kind stop).isSome = true) active stop
    · refine .inl ⟨gone, fun cuts => ?_⟩
      simp only [Watch.seeing, gone.1, gone.2, Bool.and_self, if_true, cuts]
      rfl
    · refine .inr ⟨gone, ?_⟩
      have unseen : ((kind stop).isSome && stop.escapes active) = false := by
        simpa [Lost] using gone
      simp only [Watch.seeing, unseen]
      rfl
  exact
    { lasting := WalkLasting.always host
      lasts_holds := fun _ _ => trivial
      script := fun _ _ => trivial
      callback := fun _ _ _ => trivial
      start := fun _ => trivial
      call := fun _ _ => trivial
      silent := fun _ => trivial
      unsilent := fun _ => trivial
      loop := fun _ => trivial
      condition := fun _ => trivial
      iteration := fun _ => trivial
      line := fun _ _ => rfl
      expression := fun _ _ => rfl
      handler := fun _ => rfl
      returning := fun _ _ _ _ => meets _ _ _
      breaking := fun _ _ => meets _ _ _
      continuing := fun _ _ => meets _ _ _
      command := fun _ _ _ => meets _ _ _
      function := fun _ _ _ => meets _ _ _ }

/-- The signals of some kind that get out of everything inside. -/
abbrev LostOf (kind : Stop → Option α) : Stop → Prop :=
  Lost (fun stop => (kind stop).isSome = true) []

/-- A layer that makes a result of the signals of some kind catches them. -/
theorem Catches.of_passed {kind : Stop → Option α} (layer : Ending σ β → Ending σ α)
    (cleanup : Session σ → Session σ) {inside : (Stop → Run σ Unit) → Ending σ β} {inside'}
    (escapes : ∀ {stop value}, kind stop = some value → stop.escapes [] = true)
    (catches : ∀ {stop value after}, kind stop = some value →
      layer (.error stop after) = .ok value (cleanup after))
    (fails : ∀ after, layer (.error .internal after) = .error .internal (cleanup after))
    (passed : ∀ seen, Passed (LostOf kind) (fun stop => seen stop = throw .internal) (inside seen)
      inside') : Catches kind (fun seen => layer (inside seen)) (layer inside') := by
  by_cases raised : ∃ stop value after, kind stop = some value ∧ inside' = .error stop after
  · obtain ⟨stop, value, after, is_kind, rfl⟩ := raised
    refine .inr ⟨stop, value, cleanup after, is_kind, catches is_kind, fun seen cuts => ?_⟩
    have passed := passed seen
    change layer (inside seen) = _
    generalize inside seen = ending at passed ⊢
    cases passed with
    | error _ kept => exact absurd ⟨Option.isSome_of_eq_some is_kind, escapes is_kind⟩ kept
    | lost _ stopped => rw [stopped cuts, fails]
  · refine .inl fun seen => congrArg layer ((passed seen).eq_of_forall_not ?_)
    rintro stop after ended ⟨is_kind, _⟩
    obtain ⟨value, is_kind⟩ := Option.isSome_iff_exists.mp is_kind
    exact raised ⟨stop, value, after, is_kind, ended⟩

section Catching

variable (host : Host σ) (depth : Nat)

/-- The body of a loop, executed up to its closing statement. -/
def loopBody (fuel : Nat) (block : Block) (lines : List Line) : Run σ Unit :=
  discard (walkWithin host (Engine.ofDepth host depth) fuel block .execute lines)

def loopBodyWatched (watch : Watch σ) (fuel : Nat) (block : Block) (lines : List Line) :
    Run σ Unit :=
  discard (walkWatched host watch (Engine.watched host watch depth) fuel [] block .execute lines)

theorem loopBody_follows (kind : Stop → Option α) (seen : Stop → Run σ Unit) (fuel : Nat)
    (block : Block) (lines : List Line) :
    (Watch.seeing_tracking host kind seen).Follows []
      (loopBodyWatched host depth (.seeing kind seen) fuel block lines)
      (loopBody host depth fuel block lines) := by
  have cong := (Watch.seeing_tracking host kind seen).walkCongruence
  have walks := cong.walkWatched (cong.engine depth) fuel [] block .execute lines
  exact (cong.steps []).discard walks

theorem Passed.afterIteration_broken {cut : Stop → Prop} {ending ending' : Ending σ Unit}
    (passed : Passed (LostOf Stop.broken) cut ending ending') :
    Passed (LostOf Stop.broken) cut (Vimlet.afterIteration ending)
      (Vimlet.afterIteration ending') := by
  refine passed.through id (fun value session => ⟨value, session, rfl⟩) (fun _ => rfl) ?_
  intro stop session
  cases stop with
  | continuing => exact .inr ⟨by simp [LostOf, Lost, Stop.broken], fun _ _ => by rintro ⟨⟩⟩
  | _ => exact .inl ⟨rfl, .rfl⟩

/-- Nothing in the iterations of a loop catches a `break`. -/
theorem repetition_broken (seen : Stop → Run σ Unit) :
    let follows := (Watch.seeing_tracking host Stop.broken seen).Follows []
    Repetition follows follows follows follows := by
  have steps := (Watch.seeing_tracking host Stop.broken seen).walkCongruence.steps []
  exact
    { pure := steps.pure ()
      bind := steps.bind
      late := steps.inspect (fun _ _ => rfl) fun _ => steps.fault _
      checkPatience := .same Lost.isSignal (fun _ => trivial) Run.checkPatience_ordinary
      asked := id
      iterated := fun acts =>
        { kept := fun _ => trivial
          passed := fun _ => by
            rw [iteration_eq, iteration_eq]
            exact (acts.passed trivial).afterIteration_broken }
      framed := fun acts =>
        { kept := fun _ => trivial
          passed := fun _ => (acts.passed trivial).afterIteration_broken.onLeft _ } }

theorem loop_catches {inside : (Stop → Run σ Unit) → Ending σ Unit} {inside'}
    (passed : ∀ seen, Passed (LostOf Stop.broken) (fun stop => seen stop = throw .internal)
      (inside seen) inside') :
    Catches Stop.broken (fun seen => onLeft leaveLoop (afterLoop (inside seen)))
      (onLeft leaveLoop (afterLoop inside')) := by
  refine .of_passed (fun ending => onLeft leaveLoop (afterLoop ending)) leaveLoop
    ?_ ?_ (fun _ => rfl) passed
  · intro stop value is_break
    cases stop <;> first | rfl | cases is_break
  · intro stop value after is_break
    cases stop <;> first | rfl | cases is_break

/-- A `return` ends the innermost function, with its value. -/
theorem callUser_catches (function : UserFunction) (args : List Value) (session : Session σ) :
    Catches Stop.returned
      (fun seen =>
        callUser (Engine.watched host (.seeing Stop.returned seen) depth []) function args session)
      (callUser (Engine.ofDepth host depth) function args session) := by
  obtain ⟨cause, stops⟩ | ⟨_, calls⟩ := callUser_cases function args session
  · simp only [stops]
    exact .inl fun _ => rfl
  · simp only [calls]
    refine .of_passed
      (fun ending => onLeft (leaveFunction session.loopDepth) (afterCall ending))
      (leaveFunction session.loopDepth) ?_ ?_ (fun _ => rfl) fun seen => ?_
    · intro stop value is_return
      cases stop <;> first | rfl | cases is_return
    · intro stop value after is_return
      cases stop <;> cases is_return
      rfl
    · have cong := (Watch.seeing_tracking host Stop.returned seen).walkCongruence
      have runs := (cong.engine depth []).run function.body
      exact (cong.runBody function args runs).passed trivial

/-- A `break` ends the innermost `while` statement. -/
theorem runWhile_catches (line : Line) (fuel : Nat) (lines : List Line) (session : Session σ) :
    Catches Stop.broken
      (fun seen => runWhile (Engine.watched host (.seeing Stop.broken seen) depth []) line
        (loopBodyWatched host depth (.seeing Stop.broken seen) fuel .whileLoop lines) session)
      (runWhile (Engine.ofDepth host depth) line (loopBody host depth fuel .whileLoop lines)
        session) := by
  simp only [runWhile_eq]
  refine loop_catches fun seen => ?_
  have cong := (Watch.seeing_tracking host Stop.broken seen).walkCongruence
  have conditions := cong.condition line (cong.engine depth []).eval
  exact ((repetition_broken host seen).repeatWhile conditions
    (loopBody_follows host depth _ seen fuel .whileLoop lines) _).passed trivial

/-- A `break` ends the innermost `for` statement. -/
theorem repeatFor_catches (pattern : Pattern) (items : List Value) (fuel : Nat) (lines : List Line)
    (session : Session σ) :
    Catches Stop.broken
      (fun seen => loop (repeatFor pattern
        (loopBodyWatched host depth (.seeing Stop.broken seen) fuel .forLoop lines) items) session)
      (loop (repeatFor pattern (loopBody host depth fuel .forLoop lines) items) session) := by
  simp only [loop_eq]
  refine loop_catches fun seen => ?_
  have steps := (Watch.seeing_tracking host Stop.broken seen).walkCongruence.steps []
  refine ((repetition_broken host seen).repeatFor (fun item => ?_) items).passed trivial
  exact steps.bind (steps.bindPattern steps.declare pattern item) fun _ =>
    loopBody_follows host depth _ seen fuel .forLoop lines

theorem iteration_catches (block : Block) (fuel : Nat) (lines : List Line) (session : Session σ) :
    Catches Stop.continued
      (fun seen => iteration
        (loopBodyWatched host depth (.seeing Stop.continued seen) fuel block lines) session)
      (iteration (loopBody host depth fuel block lines) session) := by
  simp only [iteration_eq]
  refine .of_passed afterIteration id ?_ ?_ (fun _ => rfl) fun seen =>
    (loopBody_follows host depth _ seen fuel block lines).passed trivial
  · intro stop value is_continue
    cases stop <;> first | rfl | cases is_continue
  · intro stop value after is_continue
    cases stop <;> first | rfl | cases is_continue

end Catching

/-! ### Requests -/

/-- What becomes of the signals that are raised while a request is met. -/
structure SignalsInside (host : Host σ) (session : Session σ) (request : Request) : Prop where
  /-- No signal gets out of an outermost request, if no `continue` is raised in a condition. -/
  ordinary {stop : Stop} {after} : session.runs = 0 →
    request.EverySignal host session (fun active stop _ =>
      stop = .continuing → active.inCondition = false) →
    request.perform host session = .error stop after → stop.isSignal = false
  /-- A signal that gets out all the same was raised in a condition. -/
  conditions {stop : Stop} {after} :
    session.runs = 0 → request.perform host session = .error stop after → stop.isSignal = true →
    request.watched host .atConditions session = .error .internal after
  /-- Statements raise signals where there is something to end, and fail where there is not. -/
  statements : request.EveryLine host session fun active line there =>
    ∀ patience, LeavesOnly host session active line (there.withPatience patience)
  caught : request.EverySignal host session fun active stop _ => stop.Caught session active
  /-- A `return` ends the innermost function, with its value. -/
  returns (depth : Nat) (function : UserFunction) (args : List Value) (there : Session σ) :
    Catches Stop.returned
      (fun seen =>
        callUser (Engine.watched host (.seeing Stop.returned seen) depth []) function args there)
      (callUser (Engine.ofDepth host depth) function args there)
  /-- A `break` ends the innermost loop. -/
  breaksWhile (depth : Nat) (line : Line) (fuel : Nat) (lines : List Line) (there : Session σ) :
    Catches Stop.broken
      (fun seen => runWhile (Engine.watched host (.seeing Stop.broken seen) depth []) line
        (loopBodyWatched host depth (.seeing Stop.broken seen) fuel .whileLoop lines) there)
      (runWhile (Engine.ofDepth host depth) line (loopBody host depth fuel .whileLoop lines) there)
  breaksFor (depth : Nat) (pattern : Pattern) (items : List Value) (fuel : Nat) (lines : List Line)
    (there : Session σ) :
    Catches Stop.broken
      (fun seen => loop (repeatFor pattern
        (loopBodyWatched host depth (.seeing Stop.broken seen) fuel .forLoop lines) items) there)
      (loop (repeatFor pattern (loopBody host depth fuel .forLoop lines) items) there)
  /-- A `continue` ends an iteration of the innermost loop. -/
  continues (depth : Nat) (block : Block) (fuel : Nat) (lines : List Line) (there : Session σ) :
    Catches Stop.continued
      (fun seen => iteration
        (loopBodyWatched host depth (.seeing Stop.continued seen) fuel block lines) there)
      (iteration (loopBody host depth fuel block lines) there)

/-- Signals stay inside of requests. Each ends the innermost function, loop or iteration that it is
for, and none is raised outside of one. -/
theorem perform_signalsInside {host : Host σ} (restores : host.Restores) (heeds : host.Heeds)
    {session : Session σ} (reachable : session.Reachable host) (request : Request) :
    SignalsInside host session request :=
  have fit := reachable.fit restores
  { ordinary := fun outermost conditions ended =>
      fit.perform_ordinary restores heeds outermost request conditions ended
    conditions := fun outermost ended signal =>
      fit.stopped_of_signal restores heeds outermost request ended signal
    statements := fit.everyLine_leavesOnly restores request
    caught := fit.everySignal_caught restores heeds request
    returns := callUser_catches host
    breaksWhile := runWhile_catches host
    breaksFor := repeatFor_catches host
    continues := iteration_catches host }

/-- A script whose signals pass loops, a `silent` statement and executed text. -/
theorem perform_signalsInside_nested :
    let session : Session Recorder := new {} 5.0
    let request : Request := .run ("function F()\nfor i in [1, 2]\nif i == 1\ncontinue\nendif\n"
      ++ "while 1\nsilent execute 'return i'\nendwhile\nendfor\nendfunction\n"
      ++ "let g:x = 1 / (F() - 2)")
    (match request.perform Recorder.host session with
      | .error (.fault .divisionByZero) _ => true
      | _ => false) = true ∧ SignalsInside Recorder.host session request :=
  ⟨by decide +kernel, perform_signalsInside Recorder.host_restores Recorder.host_heeds (.new _ _) _⟩

end Vimlet
