import Vimlet.Proofs.Session.Lasting
import Vimlet.Proofs.Statement.Extent
import Vimlet.Runner

/-!
# The statement that a failure is attributed to

A failure is attributed to the statement that was begun last. If a statement fails and no other one
was begun while it was executed, it is the statement itself. But a function that it has called
leaves its own last statement behind.
-/

namespace Vimlet

open Run Engine

variable {σ : Type}
variable {host : Host σ} {rest : List Line} {before after : Session σ}
  {lasts : Session σ → Session σ → Prop} {name : String}

/-! ### Where evaluations leave the current line -/

/-- Inside of a run, a statement that was begun last before is the one that was begun last
afterwards. -/
def Session.StaysAt (line : Line) (before after : Session σ) : Prop :=
  before.runs ≠ 0 → before.currentLine = some line →
    after.runs = before.runs ∧ after.currentLine = some line

/-- The handlers of a host begin no statements. -/
structure Host.KeepsLine (host : Host σ) : Prop where
  command (line : Line) (id : Nat) (range : LineRange) (bang : Bool) (params : String) :
    Kept (Session.StaysAt line) (host.command id range bang params)
  function (line : Line) (id : Nat) (args : List Value) :
    Kept (Session.StaysAt line) (host.function id args)

/-- Evaluations and blocks keep the current line if they run no statements. -/
theorem Host.KeepsLine.lasting (keeps : host.KeepsLine) (line : Line) :
    BlockLasting host (Session.StaysAt line) where
  refl session _ current := ⟨rfl, current⟩
  trans before after inside current := by
    obtain ⟨same, still⟩ := before inside current
    obtain ⟨same', still'⟩ := after (same ▸ inside) still
    exact ⟨same'.trans same, still'⟩
  heap session _ _ current := ⟨rfl, current⟩
  echo session _ _ current := ⟨rfl, current⟩
  trace session _ _ current := ⟨rfl, current⟩
  assign _ _ current := ⟨rfl, current⟩
  declare _ _ current := ⟨rfl, current⟩
  unlet _ _ current := ⟨rfl, current⟩
  script _ stays inside current := stays inside current
  callback _ _ stays inside current := stays inside current
  enclosed {session after} stays inside current := by
    simp only [Session.StaysAt, Session.begin, if_neg inside] at stays
    exact ⟨rfl, (stays (Nat.succ_ne_zero _) current).2⟩
  unwound outermost _ inside := absurd outermost inside
  call _ stays inside current := stays inside current
  silent stays inside current := stays inside current
  unsilent stays inside current := stays inside current
  patience session _ _ current := ⟨rfl, current⟩
  define _ _ current := ⟨rfl, current⟩
  loop stays inside current := stays inside current
  frame stays inside current := stays inside current
  command := keeps.command line
  function := keeps.function line

theorem BlockLasting.spend (lasting : BlockLasting host lasts) (count : Nat) :
    Kept lasts (spend count) := by
  induction count with
  | zero => exact lasting.pure ()
  | succ count ih => exact lasting.bind lasting.checkPatience fun _ => ih

theorem BlockLasting.walk_capture (lasting : BlockLasting host lasts) (engine : Engine σ)
    (lines : List Line) : Kept lasts (walk host engine .function .capture lines) := by
  have passed : PassedBy .capture lines (walk host engine .function .capture lines) _ :=
    walkWithin_passedBy (Nat.le_refl _) (by decide) (.inl rfl)
  cases found : extent .function [] lines with
  | ok closed =>
    rw [found] at passed
    obtain ⟨captured, _, walked⟩ := passed
    rw [walked]
    exact lasting.bind (lasting.spend _) fun _ => lasting.pure _
  | error cause =>
    rw [found] at passed
    obtain ⟨captured, _, _, walked⟩ := passed
    rw [walked]
    exact lasting.bind (lasting.spend _) fun _ => lasting.fault _

/-! ### Statements by themselves -/

/-- A watch that stops the run at every statement. -/
def Watch.stopping : Watch σ := { line := fun _ _ => throw .internal }

/-- What a statement, or the head of a block before `rest`, does until another one is begun, which
stops the run. -/
def Line.executeAlone (host : Host σ) (depth : Nat) (rest : List Line) (line : Line) : Run σ Unit :=
  let engine := watched host .stopping depth
  match line.role with
  | .simple => executeWatched host .stopping engine [] line.keyword line
  | .branch => do let _ ← nextBranch (engine []) line.keyword line .skip
  | .opens .conditional => do let _ ← condition (engine []) line
  | .opens .whileLoop => do if ← condition (engine []) line then checkPatience
  | .opens .forLoop => runFor (engine []) line (throw .internal)
  | .opens _ => do
    setLine line
    let header ← ofExcept (FunctionHeader.parse line.params)
    let passage ← walk host (engine []) .function .capture rest
    defineFunction header passage.captured
  | .closes _ => return

section Statements

variable (keeps : host.KeepsLine) (line : Line) (depth : Nat)
include keeps

theorem callCongruence_stopping :
    CallCongruence host .stopping fun _ _ act _ => Kept (Session.StaysAt line) act :=
  (keeps.lasting line).callCongruence (fun _ => (keeps.lasting line).pure ()) fun _ _ =>
    (keeps.lasting line).pure ()

theorem Engine.watched_staysAt (active : Activity) :
    (watched host .stopping depth active).Related
      (fun _ act _ => Kept (Session.StaysAt line) act) (ofDepth host depth) := by
  have lasting := keeps.lasting line
  have cong := callCongruence_stopping keeps line
  induction depth generalizing active with
  | zero => exact ⟨fun _ => lasting.throw _, fun _ _ => lasting.throw _, fun _ => lasting.throw _⟩
  | succ depth ih =>
    refine ⟨fun text => ?_, cong.callWatched (ih active) (ih _).run, fun lines => ?_⟩
    · exact lasting.bind (lasting.pure ()) fun _ =>
        (cong.steps active).evaluate (ih active) text
    · cases lines with
      | nil => exact lasting.refl
      | cons line rest => exact lasting.refl

omit keeps in
theorem setLine_staysAt : Kept (Session.StaysAt line) (setLine line : Run σ Unit) :=
  fun _ _ _ => ⟨rfl, rfl⟩

theorem condition_staysAt :
    Kept (Session.StaysAt line) (condition (watched host .stopping depth []) line) := by
  have lasting := keeps.lasting line
  refine lasting.bind (setLine_staysAt line) fun _ => ?_
  refine lasting.bind ((watched_staysAt keeps line depth []).eval _) fun value => ?_
  exact Lasting.inspect fun _ => lasting.pure _

theorem executeAlone_staysAt (rest : List Line) :
    Kept (Session.StaysAt line) (line.executeAlone host depth rest) := by
  have lasting := keeps.lasting line
  have cong := callCongruence_stopping keeps line
  have engines := watched_staysAt keeps line depth
  have asked := condition_staysAt keeps line depth
  unfold Line.executeAlone
  split
  · exact cong.executeWatched engines [] _ (setLine_staysAt line)
  · refine lasting.bind ?_ fun _ => lasting.pure ()
    simp only [nextBranch]
    split
    · exact lasting.pure _
    · refine lasting.bind asked fun taken => ?_
      split
      · exact lasting.pure _
      · exact lasting.pure _
  · exact lasting.bind asked fun _ => lasting.pure ()
  · refine lasting.bind asked fun taken => ?_
    split
    · exact lasting.checkPatience
    · exact lasting.pure ()
  · refine lasting.bind (setLine_staysAt line) fun _ => ?_
    refine lasting.bind (lasting.ofExcept _) fun header => ?_
    refine lasting.bind (lasting.ofExcept _) fun pattern => ?_
    refine lasting.bind ((engines []).eval _) fun value => ?_
    refine lasting.bind (lasting.onHeap _) fun items => ?_
    refine lasting.runLoop (lasting.repeatFor (fun item => ?_) items)
    exact lasting.bind ((cong.steps []).bindPattern lasting.declared pattern item) fun _ =>
      lasting.throw _
  · refine lasting.bind (setLine_staysAt line) fun _ => ?_
    refine lasting.bind (lasting.ofExcept _) fun header => ?_
    refine lasting.bind (lasting.walk_capture _ rest) fun passage => ?_
    exact lasting.defineFunction header _
  · exact lasting.pure ()

end Statements

/-! ### Failing statements -/

/-- Inside of a run, a statement fails before another one is begun. -/
structure Line.FailsAlone (host : Host σ) (depth : Nat) (rest : List Line) (line : Line)
    (cause : Fault) (before after : Session σ) : Prop where
  inside : before.runs ≠ 0
  ended : line.executeAlone host depth rest before = .error (.fault cause) after

namespace Line.FailsAlone

variable {depth : Nat} {line : Line} {cause : Fault}
  (fails : line.FailsAlone host depth rest cause before after)
include fails

theorem executeSimple_eq (simple : line.role = .simple) :
    executeSimple host (ofDepth host depth) line.keyword line before =
      .error (.fault cause) after := by
  have interrupts (active : Activity) (line : Line) :
      Interrupted (fun _ => True) (Watch.stopping.line active line : Run σ Unit) (pure ()) :=
    fun session => .inr ⟨session, rfl, trivial⟩
  have cong := interrupted_walkCongruence interrupts (fun _ _ => .refl _) host
  have ended := fails.ended
  simp only [executeAlone, simple] at ended
  obtain same | ⟨_, stopped, _⟩ := cong.executeWatched (cong.engine depth) [] line.keyword
    (cong.setLine [] line) before
  · exact same.symm.trans ended
  · cases ended.symm.trans stopped

theorem currentLine (keeps : host.KeepsLine) : after.currentLine = some line := by
  have stays := executeAlone_staysAt keeps line depth rest { before with currentLine := some line }
    fails.inside rfl
  -- what can fail sets the current line before anything else
  have begun : line.executeAlone host depth rest { before with currentLine := some line } =
      .error (.fault cause) after := by
    have ended := fails.ended
    cases role : line.role with
    | simple =>
      simp only [executeAlone, role] at ended ⊢
      exact ended
    | branch =>
      simp only [executeAlone, role, nextBranch] at ended ⊢
      split at ended
      · cases ended
      · rw [if_neg ‹_›]
        exact ended
    | opens block =>
      cases block <;> simp only [executeAlone, role] at ended ⊢ <;> exact ended
    | closes block =>
      simp only [executeAlone, role] at ended
      cases ended
  rw [begun] at stays
  exact stays.2

end Line.FailsAlone

open Classical in
/-- A watch that stops the run where a statement is executed or its condition is evaluated, in the
session that it leaves. -/
noncomputable def Watch.stoppingAt (failing : Line) (before after : Session σ) : Watch σ where
  line _ line session :=
    if line = failing ∧ checkPatience session = .ok () before then .error .internal after
    else .ok () session
  expression _ text session :=
    if text = failing.params ∧ session = { before with currentLine := some failing } then
      .error .internal after
    else .ok () session

/-- If a statement fails before another one is begun, and a script ends with that failure, then the
failure is attributed to the statement, unless it is about a file. -/
theorem runScript_attributes {host : Host σ} (keeps : host.KeepsLine) {depth : Nat}
    {rest : List Line} {line : Line} {cause : Fault} {before after : Session σ}
    (fails : line.FailsAlone host depth rest cause before after)
    (readable : ∀ path reason, cause ≠ .unreadable path reason) {source : String}
    {session last : Session σ}
    (stopped : (Request.run source).watched host (.stoppingAt line before after) session =
      .error .internal last)
    (ended : run host source session = .error (.fault cause) last) :
    ∃ failure, (runScript host source session).1.outcome = .error failure ∧
      failure.place = some ⟨line.number, line.text⟩ := by
  have current := fails.currentLine keeps
  have performed : (Request.run source).perform host session = .error (.fault cause) last :=
    bind_error ended
  have interrupted : Interrupted (· = some line)
      ((Request.run source).watched host (.stoppingAt line before after))
      ((Request.run source).perform host) :=
    (Request.run source).watched_interrupted (fun _ _ => .halt current) (fun _ _ => .halt current)
      host
  have attributed : last.currentLine = some line := by
    obtain same | ⟨_, stopped', current⟩ := interrupted session
    · cases stopped.symm.trans (same.trans performed)
    · cases stopped.symm.trans stopped'
      exact current
  have reported_eq : runScript host source session =
      failed host (host.effects session.host).size (.fault cause) last := by
    change reported host ((Request.run source).perform host) session = _
    rw [reported, performed]
  refine ⟨_, congrArg (fun report => report.1.outcome) reported_eq, ?_⟩
  rw [Session.place, attributed]
  cases cause with
  | unreadable path reason => cases readable path reason rfl
  | _ => rfl

/-- A script ends with the failure of its first statement. -/
theorem run_of_first_failsAlone {source line} (lines : scriptLines source = line :: rest)
    (simple : line.role = .simple) {session}
    (ready : checkPatience session.begin = .ok () before) {depth}
    (nesting : maxNesting = depth + 1)
    (fails : line.FailsAlone host depth rest (.variableUndefined name) before after) :
    (Request.run source).watched host (.stoppingAt line before after) session =
        .error .internal { after with runs := session.runs } ∧
      run host source session =
        .error (.fault (.variableUndefined name)) { after with runs := session.runs } := by
  constructor
  · have halted : (watched host (.stoppingAt line before after) maxNesting []).run
        (scriptLines source) session.begin = .error .internal after := by
      rw [nesting, lines]
      refine bind_error (bind_error ?_)
      exact if_pos ⟨rfl, ready⟩
    refine bind_error ?_
    rw [enclosed_eq_after, finishing_eq, halted]
    rfl
  · have failed : (engine host).run (scriptLines source) session.begin =
        .error (.fault (.variableUndefined name)) after := by
      have role_eq : Role.ofKeyword (expandKeyword line.command) = .simple := simple
      rw [engine, nesting, lines]
      refine bind_error ?_
      rw [walk, List.length_cons, walkWithin, bind_ok ready]
      simp only [walkLine, role_eq, if_pos]
      exact bind_error (fails.executeSimple_eq simple)
    change Run.enclosed (finishing _) session = _
    rw [enclosed_eq_after, finishing_eq, failed]
    rfl

theorem Recorder.host_keepsLine : Recorder.host.KeepsLine where
  command _ _ _ _ _ _ _ current := ⟨rfl, current⟩
  function _ _ _ _ _ current := ⟨rfl, current⟩

/-- The variable that was not defined when a computation stopped. -/
def undefinedVariable? {α : Type} : Ending σ α → Option String
  | .error (.fault (.variableUndefined name)) _ => some name
  | _ => none

theorem exists_of_undefinedVariable? {α : Type} {ending : Ending σ α}
    (found : undefinedVariable? ending = some name) :
    ∃ after, ending = .error (.fault (.variableUndefined name)) after := by
  unfold undefinedVariable? at found
  split at found
  · cases found
    exact ⟨_, rfl⟩
  · cases found

theorem runScript_attributes_undefined :
    let session : Session Recorder := Session.new {} 5.0
    let source := "let x = 1 + nosuch"
    let line : Line := ⟨.current, "let", false, "x = 1 + nosuch", 1⟩
    ∃ before after last,
      line.FailsAlone Recorder.host 1199 [] (.variableUndefined "nosuch") before after ∧
      (Request.run source).watched Recorder.host (.stoppingAt line before after) session =
        .error .internal last ∧
      run Recorder.host source session = .error (.fault (.variableUndefined "nosuch")) last ∧
      ∃ failure, (runScript Recorder.host source session).1.outcome = .error failure ∧
        failure.place = some ⟨1, "let x = 1 + nosuch"⟩ := by
  intro session source line
  have lines : scriptLines source = [line] := by decide +kernel
  let before := session.begin.withPatience (allowance 5.0 - 1)
  have ready : checkPatience session.begin = .ok () before := by
    have positive : allowance 5.0 ≠ 0 := by decide +kernel
    have patience_eq : session.begin.patience = allowance 5.0 := by
      simp only [Session.begin, session, Session.new, if_pos]
    obtain ⟨none_left, _⟩ | ⟨left, some_left, ready⟩ := checkPatience_cases session.begin
    · exact absurd (patience_eq.symm.trans none_left) positive
    · have left_eq : allowance 5.0 - 1 = left :=
        Nat.sub_eq_of_eq_add (patience_eq.symm.trans some_left)
      rw [ready, ← left_eq]
  have failed : undefinedVariable? (line.executeAlone Recorder.host 1199 [] before) =
      some "nosuch" := by decide +kernel
  obtain ⟨after, ended⟩ := exists_of_undefinedVariable? failed
  have fails : line.FailsAlone Recorder.host 1199 [] (.variableUndefined "nosuch") before after :=
    ⟨Nat.one_ne_zero, ended⟩
  obtain ⟨stopped, ended'⟩ := run_of_first_failsAlone lines rfl ready rfl fails
  refine ⟨before, after, _, fails, stopped, ended', ?_⟩
  exact runScript_attributes Recorder.host_keepsLine fails (by intro _ _ equal; cases equal)
    stopped ended'

/-- A function that returns leaves the current line at its own last statement, so that a failure
after the call is attributed to it. -/
theorem runScript_attributes_callee :
    let session : Session Recorder := Session.new {} 5.0
    let definition := "function F()\n  return 1\nendfunction\n"
    (match (runScript Recorder.host (definition ++ "let g:x = F()") session).1.outcome with
      | .ok _ => true
      | .error _ => false) = true ∧
    (match (runScript Recorder.host (definition ++ "let g:x = F() + []") session).1.outcome with
      | .ok _ => false
      | .error failure => failure.place == some ⟨2, "return 1"⟩) = true := by
  decide +kernel

end Vimlet
