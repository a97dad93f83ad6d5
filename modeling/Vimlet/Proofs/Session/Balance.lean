import Vimlet.Proofs.Interpreter.Tracking
import Vimlet.Proofs.Namespace.Update
import Vimlet.Recorder

/-!
# Every run leaves the session balanced

However a request ends, there are as many frames as before, and the counters and the active script
are the same. In between, there is one more frame for each active call and for each active iteration
of a `for` statement, and no more functions are active than the limit allows.
-/

namespace Vimlet

open Namespace

variable {σ : Type}
variable {α : Type} {host : Host σ} {session after before : Session σ} {active : Activity}

section Frames

variable (space : Namespace α)

@[simp]
theorem Namespace.depth_enter (barrier : Bool) :
    (space.enter barrier).depth = space.depth + 1 := rfl

@[simp]
theorem Namespace.depth_left : (space.leave?.getD space).depth = space.depth - 1 := by
  unfold leave?
  split <;> simp [depth, *]

@[simp]
theorem Namespace.scripts_left : (space.leave?.getD space).scripts = space.scripts := by
  unfold leave?
  split <;> rfl

theorem Namespace.depth_cutTo {depth} (within : depth ≤ space.depth) :
    (space.cutTo depth).depth = depth := by
  simp only [cutTo, Namespace.depth, List.length_drop] at within ⊢
  omega

end Frames

/-! ### Balance -/

namespace Session

/-- A session has the frames, the counters and the active script that another one had. -/
structure Balanced (before after : Session σ) : Prop where
  vars : after.vars.depth = before.vars.depth
  functions : after.functions.depth = before.functions.depth
  functionDepth : after.functionDepth = before.functionDepth
  loopDepth : after.loopDepth = before.loopDepth
  silence : after.silence = before.silence
  runs : after.runs = before.runs
  varScript : after.vars.scripts.active = before.vars.scripts.active
  functionScript : after.functions.scripts.active = before.functions.scripts.active
  limit : after.maxFunctionDepth = before.maxFunctionDepth

/-- A run is active, and both namespaces are in the same script. -/
structure Running (session : Session σ) : Prop where
  inside : session.runs ≠ 0
  script : session.vars.scripts.active = session.functions.scripts.active

/-- If a run is active before, the session is balanced afterwards. -/
def Restored (before after : Session σ) : Prop := before.Running → before.Balanced after

theorem Balanced.refl (session : Session σ) : session.Balanced session :=
  ⟨rfl, rfl, rfl, rfl, rfl, rfl, rfl, rfl, rfl⟩

theorem Balanced.trans {first second third : Session σ} (before : first.Balanced second)
    (after : second.Balanced third) : first.Balanced third where
  vars := after.vars.trans before.vars
  functions := after.functions.trans before.functions
  functionDepth := after.functionDepth.trans before.functionDepth
  loopDepth := after.loopDepth.trans before.loopDepth
  silence := after.silence.trans before.silence
  runs := after.runs.trans before.runs
  varScript := after.varScript.trans before.varScript
  functionScript := after.functionScript.trans before.functionScript
  limit := after.limit.trans before.limit

theorem Balanced.running (balanced : before.Balanced after) (running : before.Running) :
    after.Running :=
  ⟨balanced.runs ▸ running.inside,
    balanced.varScript.trans (running.script.trans balanced.functionScript.symm)⟩

theorem Balanced.of_vars {vars} (updated : session.vars.Updated vars) :
    session.Balanced { session with vars } :=
  { Balanced.refl session with vars := updated.depth, varScript := updated.script }

theorem begin_running (script : session.vars.scripts.active = session.functions.scripts.active) :
    session.begin.Running := by
  unfold begin
  split <;> exact ⟨Nat.succ_ne_zero _, script⟩

/-- Starting a run changes nothing that is balanced but the number of runs. -/
theorem begin_balanced (session : Session σ) :
    { session with runs := session.runs + 1 }.Balanced session.begin := by
  unfold begin
  split <;> exact ⟨rfl, rfl, rfl, rfl, rfl, rfl, rfl, rfl, rfl⟩

theorem Balanced.leave {barrier} (balanced : (session.enter barrier).Balanced after) :
    session.Balanced after.leave :=
  { balanced with
    vars := by simp [Session.leave, balanced.vars, enter]
    functions := by simp [Session.leave, balanced.functions, enter]
    varScript := by simp [Session.leave, balanced.varScript, enter, Namespace.enter]
    functionScript := by simp [Session.leave, balanced.functionScript, enter, Namespace.enter] }

end Session

/-- The handlers of a host leave the session balanced. -/
structure Host.Restores (host : Host σ) : Prop where
  command (id : Nat) (range : LineRange) (bang : Bool) (params : String) :
    Kept Session.Restored (host.command id range bang params)
  function (id : Nat) (args : List Value) : Kept Session.Restored (host.function id args)

namespace Host.Restores

variable (restores : host.Restores)
include restores

/-- Inside of a run, the session is balanced after everything that scripts do. -/
theorem lasting : WalkLasting host Session.Restored where
  refl session _ := .refl session
  trans before after running := (before running).trans (after ((before running).running running))
  heap session _ _ := { Session.Balanced.refl session with }
  echo session _ _ := { Session.Balanced.refl session with }
  trace session _ _ := { Session.Balanced.refl session with }
  patience session _ _ := { Session.Balanced.refl session with }
  line session _ _ := { Session.Balanced.refl session with }
  assign inserted _ := .of_vars (insert_updated inserted)
  declare declared _ := .of_vars (declare_updated declared)
  unlet removed _ := .of_vars (remove_updated removed)
  define {session _ _ _} inserted _ :=
    have updated := insert_updated inserted
    { Session.Balanced.refl session with
      functions := updated.depth
      functionScript := updated.script }
  script _ restored running :=
    have balanced := restored ⟨running.inside, rfl⟩
    { vars := balanced.vars
      functions := balanced.functions
      functionDepth := balanced.functionDepth
      loopDepth := balanced.loopDepth
      silence := balanced.silence
      runs := balanced.runs
      varScript := running.script.symm
      functionScript := rfl
      limit := balanced.limit }
  callback _ _ restored running :=
    have balanced := restored ⟨running.inside, running.script⟩
    { balanced with }
  enclosed {session _} restored running :=
    have balanced := session.begin_balanced.trans
      (restored (Session.begin_running running.script))
    { balanced with runs := rfl }
  unwound outermost _ running := absurd outermost running.inside
  call {session after} _ restored running :=
    have inside : Session.Balanced
        { session with loopDepth := 0, functionDepth := session.functionDepth + 1 } after.leave :=
      .leave (restored ⟨running.inside, running.script⟩)
    { inside with
      functionDepth := congrArg (· - 1) inside.functionDepth
      loopDepth := rfl }
  silent restored running :=
    have balanced := restored ⟨running.inside, running.script⟩
    { balanced with silence := congrArg (· - 1) balanced.silence }
  unsilent restored running :=
    have balanced := restored ⟨running.inside, running.script⟩
    { balanced with silence := rfl }
  loop restored running :=
    have balanced := restored ⟨running.inside, running.script⟩
    { balanced with loopDepth := congrArg (· - 1) balanced.loopDepth }
  frame restored running := (restored ⟨running.inside, running.script⟩).leave
  command := restores.command
  function := restores.function

end Host.Restores

/-! ### Levels -/

/-- How many frames what is active has pushed: one for each call and one for each iteration of a
`for` statement. -/
def Activity.frames (active : Activity) : Nat :=
  active.count .call + active.count .iteration

theorem Activity.frames_call (active : Activity) :
    Activity.frames (.call :: active) = active.frames + 1 := by
  simp [frames, Nat.add_right_comm]

theorem Activity.frames_iteration (active : Activity) :
    Activity.frames (.iteration :: active) = active.frames + 1 := by
  simp [frames, Nat.add_assoc]

/-- How many loops are active in the innermost function, if there were some at the start. -/
def Activity.loops (start : Nat) : Activity → Nat
  | [] => start
  | .call :: _ => 0
  | .loop :: outer => loops start outer + 1
  | _ :: outer => loops start outer

namespace Session

variable {start : Session σ}

/-- A session has the frames and counters that what is active since the start accounts for. -/
structure Level (start : Session σ) (active : Activity) (session : Session σ) : Prop where
  running : session.Running
  vars : session.vars.depth = start.vars.depth + active.frames
  functions : session.functions.depth = start.functions.depth + active.frames
  functionDepth : session.functionDepth = start.functionDepth + active.count .call
  loopDepth : session.loopDepth = active.loops start.loopDepth
  bounded : (session.functionDepth : Int) ≤ max 0 session.maxFunctionDepth

theorem Level.of_balanced (level : start.Level active session) (balanced : session.Balanced after) :
    start.Level active after where
  running := balanced.running level.running
  vars := balanced.vars.trans level.vars
  functions := balanced.functions.trans level.functions
  functionDepth := balanced.functionDepth.trans level.functionDepth
  loopDepth := balanced.loopDepth.trans level.loopDepth
  bounded := by rw [balanced.functionDepth, balanced.limit]; exact level.bounded

theorem Level.steady (restores : host.Restores) (start : Session σ) :
    Steady host Restored start.Level where
  lasting := restores.lasting
  lasts_holds restored level := level.of_balanced (restored level.running)
  script _ level := { level with running := ⟨level.running.inside, rfl⟩ }
  callback _ _ level := { level with running := ⟨level.running.inside, level.running.script⟩ }
  start {_ session} level :=
    have inside : start.Level _ { session with runs := session.runs + 1 } :=
      { level with running := ⟨Nat.succ_ne_zero _, level.running.script⟩ }
    inside.of_balanced session.begin_balanced
  call {_ session} shallow level :=
    { running := ⟨level.running.inside, level.running.script⟩
      vars := by
        rw [Activity.frames_call, ← Nat.add_assoc, ← level.vars]
        rfl
      functions := by
        rw [Activity.frames_call, ← Nat.add_assoc, ← level.functions]
        rfl
      functionDepth := by
        rw [List.count_cons_self, ← Nat.add_assoc, ← level.functionDepth]
        rfl
      loopDepth := rfl
      bounded := by
        simp only [enterFunction, enter]
        omega }
  silent level :=
    { level with running := ⟨level.running.inside, level.running.script⟩ }
  unsilent level :=
    { level with running := ⟨level.running.inside, level.running.script⟩ }
  loop level :=
    { level with
      running := ⟨level.running.inside, level.running.script⟩
      loopDepth := congrArg (· + 1) level.loopDepth }
  condition level := { level with }
  iteration level :=
    { level with
      running := ⟨level.running.inside, level.running.script⟩
      vars := by
        rw [Activity.frames_iteration, ← Nat.add_assoc, ← level.vars]
        rfl
      functions := by
        rw [Activity.frames_iteration, ← Nat.add_assoc, ← level.functions]
        rfl }

/-! ### Requests -/

/-- What is true of a session between requests, and while a handler runs. -/
structure Fit (session : Session σ) : Prop where
  script : session.vars.scripts.active = session.functions.scripts.active
  idle : session.runs = 0 → session.functionDepth = 0 ∧ session.loopDepth = 0 ∧ session.silence = 0
  bounded : (session.functionDepth : Int) ≤ max 0 session.maxFunctionDepth

theorem Fit.of_balanced (fit : before.Fit) (balanced : before.Balanced after) : after.Fit where
  script := balanced.varScript.trans (fit.script.trans balanced.functionScript.symm)
  idle outermost := by
    rw [balanced.functionDepth, balanced.loopDepth, balanced.silence]
    exact fit.idle (balanced.runs ▸ outermost)
  bounded := by rw [balanced.functionDepth, balanced.limit]; exact fit.bounded

theorem Level.fit (level : start.Level active session) : session.Fit where
  script := level.running.script
  idle outermost := absurd outermost level.running.inside
  bounded := level.bounded

theorem Fit.level (fit : session.Fit) : session.Level [] session.begin :=
  have inside : session.Level [] { session with runs := session.runs + 1 } :=
    ⟨⟨Nat.succ_ne_zero _, fit.script⟩, rfl, rfl, rfl, rfl, fit.bounded⟩
  inside.of_balanced session.begin_balanced

/-- A computation that keeps a running session balanced does so as the outermost one too. -/
theorem Fit.enclosed (fit : session.Fit) {act : Run σ α} (kept : Kept Restored act) :
    session.Balanced (left (Run.enclosed act session)) := by
  have inside := session.begin_balanced.trans (kept _ (begin_running fit.script))
  obtain same | ⟨outermost, same⟩ := left_enclosed act session
  · rw [same]
    exact { inside with runs := rfl }
  · -- the counters are reset, which were zero before the run
    obtain ⟨no_function, no_loop, no_silence⟩ := fit.idle outermost
    rw [same]
    exact
      { inside with
        vars := depth_cutTo _ (Nat.le_of_eq inside.vars.symm)
        functions := depth_cutTo _ (Nat.le_of_eq inside.functions.symm)
        functionDepth := no_function.symm
        loopDepth := no_loop.symm
        silence := no_silence.symm
        runs := rfl }

theorem Fit.perform (restores : host.Restores) (fit : session.Fit) (request : Request) :
    session.Balanced (left (request.perform host session)) :=
  restores.lasting.perform_left _ fit.enclosed request

/-! ### Sessions that can come about -/

/-- A host may change anything but the counters, the active script of both namespaces, and the limit
only while no run is active. -/
structure Configured (before after : Session σ) : Prop where
  functionDepth : after.functionDepth = before.functionDepth
  loopDepth : after.loopDepth = before.loopDepth
  silence : after.silence = before.silence
  runs : after.runs = before.runs
  script : after.vars.scripts.active = after.functions.scripts.active
  limit : before.runs ≠ 0 → after.maxFunctionDepth = before.maxFunctionDepth

/-- The sessions that a host can come by. -/
inductive Reachable (host : Host σ) : Session σ → Prop where
  | new (state : σ) (timeout : Float) : Reachable host (Session.new state timeout)
  | configured {before after : Session σ} :
      Reachable host before → before.Configured after → Reachable host after
  /-- A request was met. -/
  | performed {session : Session σ} (request : Request) :
      Reachable host session → Reachable host (left (request.perform host session))
  /-- A handler runs while a request is met. -/
  | handling {session there} (request : Request) :
      Reachable host session → ¬request.EveryHandler host session (fun _ at_handler =>
        at_handler ≠ there) → Reachable host there

theorem Configured.fit (configured : before.Configured after) (fit : before.Fit) : after.Fit where
  script := configured.script
  idle outermost := by
    rw [configured.functionDepth, configured.loopDepth, configured.silence]
    exact fit.idle (configured.runs ▸ outermost)
  bounded := by
    rw [configured.functionDepth]
    by_cases outermost : before.runs = 0
    · rw [(fit.idle outermost).1]
      exact Int.le_max_left _ _
    · rw [configured.limit outermost]
      exact fit.bounded

theorem Reachable.fit (restores : host.Restores) (reachable : session.Reachable host) :
    session.Fit := by
  induction reachable with
  | new state timeout => exact ⟨rfl, fun _ => ⟨rfl, rfl, rfl⟩, Int.le_max_left _ _⟩
  | configured _ configured fit => exact configured.fit fit
  | performed request _ fit => exact fit.of_balanced (fit.perform restores request)
  | @handling session there request _ handled fit =>
    by_contra unfit
    refine handled ((Level.steady restores session).everyHandler ?_ request fit.level)
    rintro active at_handler level rfl
    exact unfit level.fit

end Session

theorem Recorder.host_restores : Recorder.host.Restores where
  command _ _ _ _ session _ := .refl session
  function _ _ session _ := .refl session

/-- However a request ends, the session is balanced. At every statement in between, both namespaces
have one more frame for each active call and iteration, and the active functions are within the
limit. -/
theorem perform_balanced {host : Host σ} (restores : host.Restores) {session : Session σ}
    (reachable : session.Reachable host) (request : Request) :
    session.Balanced (left (request.perform host session)) ∧
      request.EveryLine host session fun active _ there =>
        there.vars.depth = session.vars.depth + active.frames ∧
        there.functions.depth = session.functions.depth + active.frames ∧
        there.functionDepth = session.functionDepth + active.count .call ∧
        (there.functionDepth : Int) ≤ max 0 there.maxFunctionDepth := by
  have fit := reachable.fit restores
  refine ⟨fit.perform restores request, ?_⟩
  refine (Session.Level.steady restores session).everyLine ?_ request fit.level
  intro active _ there level
  exact ⟨level.vars, level.functions, level.functionDepth, level.bounded⟩

/-- A script that fails in a loop of a function. -/
theorem perform_balanced_failing :
    let session : Session Recorder := Session.new {} 5.0
    let request : Request :=
      .run "function F()\nfor i in [1]\nsilent let x = [] + i\nendfor\nendfunction\ncall F()"
    (match request.perform Recorder.host session with
      | .error (.fault (.wrongKind _ _)) _ => true
      | _ => false) = true ∧
      session.Balanced (left (request.perform Recorder.host session)) ∧
      request.EveryLine Recorder.host session fun active _ there =>
        there.vars.depth = session.vars.depth + active.frames ∧
        there.functions.depth = session.functions.depth + active.frames ∧
        there.functionDepth = session.functionDepth + active.count .call ∧
        (there.functionDepth : Int) ≤ max 0 there.maxFunctionDepth :=
  ⟨by decide +kernel, perform_balanced Recorder.host_restores (.new _ _) _⟩

end Vimlet
