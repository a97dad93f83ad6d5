import Vimlet.Proofs.Session.Lasting
import Vimlet.Recorder
import Vimlet.Runner

/-!
# Reports and effects

What a runner reports of its calls, one after the other, is what the host has recorded meanwhile. A
report of a failure ends with the only error message in it. Only a file that is there but has no
text, and a path with a null character, leave a call without a report.
-/

namespace Vimlet

open Recorder List

/-- Effects were recorded that are no error messages. -/
def Session.Appends (before after : Session Recorder) : Prop :=
  ∃ added : List Effect, after.host.effects.toList = before.host.effects.toList ++ added ∧
    ∀ effect ∈ added, effect.topic ≠ .stderr

theorem Session.Appends.of_eq {before after : Session Recorder}
    (same : after.host.effects = before.host.effects) : before.Appends after :=
  ⟨[], by rw [same, append_nil], forall_mem_nil _⟩

theorem Session.Appends.trans {first second third : Session Recorder}
    (before : first.Appends second) (after : second.Appends third) : first.Appends third := by
  obtain ⟨added, effects, plain⟩ := before
  obtain ⟨more, more_effects, more_plain⟩ := after
  refine ⟨added ++ more, ?_, forall_mem_append.mpr ⟨plain, more_plain⟩⟩
  rw [more_effects, effects, append_assoc]

/-- The recording host with commands and functions. -/
def Recorder.hostWith (command : Nat → LineRange → Bool → String → Run Recorder Unit)
    (function : Nat → List Value → Run Recorder Value) : Host Recorder :=
  { Recorder.host with command, function }

variable {command : Nat → LineRange → Bool → String → Run Recorder Unit}
  {function : Nat → List Value → Run Recorder Value}

theorem Session.appends_echo (session : Session Recorder) (message : String) :
    session.Appends { session with host := session.host.echo message } := by
  unfold Recorder.echo
  split
  · exact .of_eq rfl
  · exact ⟨[⟨.stdout, message⟩], Array.toList_push, by simp⟩

/-- Whatever scripts do records no error messages if the commands and functions of the host record
none. -/
theorem Session.appends_lasting
    (commands : ∀ id range bang params, Kept Appends (command id range bang params))
    (functions : ∀ id args, Kept Appends (function id args)) :
    WalkLasting (hostWith command function) Appends where
  refl _ := .of_eq rfl
  trans := .trans
  heap _ _ := .of_eq rfl
  echo := appends_echo
  trace _ _ := .of_eq rfl
  patience _ _ := .of_eq rfl
  line _ _ := .of_eq rfl
  assign _ := .of_eq rfl
  declare _ := .of_eq rfl
  unlet _ := .of_eq rfl
  define _ := .of_eq rfl
  script _ appends := appends
  callback _ _ appends := appends
  enclosed {session _} appends := by rwa [Appends, session.begin_host] at appends
  unwound {session _} _ appends := by rwa [Appends, session.begin_host] at appends
  call _ appends := appends
  silent appends := appends
  unsilent appends := appends
  loop appends := appends
  frame appends := appends
  command := commands
  function := functions

/-! ### One call -/

/-- A call of a runner, for a file with what reading it gave. -/
inductive RunnerCall where
  | script (source : String)
  | expression (text : String)
  | file (read : Except Stop File)

variable {σ α : Type}

/-- A computation stops, and not by `finish`. -/
def Raises (act : Run σ α) (session : Session σ) : Prop :=
  ∃ stop after, act session = .error stop after ∧ stop ≠ .fault .exit

/-- The report of a call. There is none if reading a file stops with anything but a fault. -/
def RunnerCall.handle (host : Host σ) (call : RunnerCall) (session : Session σ) :
    Except Stop (Report × Session σ) :=
  match call with
  | .script source => .ok (runScript host source session)
  | .expression text => .ok (runExpression host text session)
  | .file read => runFile host read session

/-- How a call leaves its runner without a report: a file was not read, and that is no fault. -/
def RunnerCall.escape? : RunnerCall → Option Stop
  | .script _ | .expression _ | .file (.ok _) | .file (.error (.fault _)) => none
  | .file (.error stop) => some stop

theorem RunnerCall.handle_escape {host : Host σ} {call : RunnerCall} {stop}
    (escapes : call.escape? = some stop) (session : Session σ) :
    call.handle host session = .error stop := by
  rcases call with _ | _ | (stop | _)
  · cases escapes
  · cases escapes
  · cases stop with
    | fault => cases escapes
    | _ =>
      cases escapes
      rfl
  · cases escapes

/-- The file cannot be read, or what is run stops. -/
def RunnerCall.Fails (host : Host σ) (session : Session σ) : RunnerCall → Prop
  | .script source => Raises (run host source) session
  | .expression text => Raises (eval host text) session
  | .file (.ok opened) =>
    Raises (run host opened.text) (session.setScript (some (.name opened.path)))
  | .file (.error _) => True

/-- A report tells of an error. -/
def Report.IsError (report : Report) : Prop := ∃ failure, report.outcome = .error failure

/-- A report has the effects that were recorded. If it is one of a failure, it ends with the message,
and there is no other one. -/
structure Report.Accounts (report : Report) (before after : Session Recorder) : Prop where
  effects : after.host.effects.toList = before.host.effects.toList ++ report.effects
  message : report.IsError → ∃ others, report.effects = others ++ [⟨.stderr, report.errorText⟩] ∧
    ∀ effect ∈ others, effect.topic ≠ .stderr

section Call

variable {before after : Session Recorder}

theorem effectsSince_eq {host} {before after : Session σ} {added}
    (effects : (host.effects after.host).toList = (host.effects before.host).toList ++ added) :
    effectsSince host (host.effects before.host).size after = added := by
  rw [effectsSince, effects]
  exact drop_left

theorem failed_accounts (appends : before.Appends after) (stop : Stop) :
    let result := failed (hostWith command function) before.host.effects.size stop after
    result.1.Accounts before result.2 := by
  obtain ⟨added, effects, plain⟩ := appends
  let message : Effect := ⟨.stderr, (stop.failure after.place).text⟩
  have recorded : (after.host.effects.push message).toList =
      before.host.effects.toList ++ (added ++ [message]) := by
    rw [Array.toList_push, effects, append_assoc]
  have since : effectsSince (hostWith command function) before.host.effects.size
      { after with host := after.host.reportError message.message } = added ++ [message] :=
    effectsSince_eq recorded
  exact ⟨recorded.trans (congrArg _ since.symm), fun _ => ⟨added, since, plain⟩⟩

/-- Whatever is run and reported accounts for its effects. -/
theorem reported_accounts {act} (kept : Kept Session.Appends act) (session : Session Recorder) :
    let result := reported (hostWith command function) act session
    result.1.Accounts session result.2 := by
  have appends := kept session
  unfold reported
  cases ended : act session with
  | ok value after =>
    rw [ended] at appends
    obtain ⟨added, effects, _⟩ := appends
    refine ⟨effects.trans (congrArg _ (effectsSince_eq effects).symm), ?_⟩
    rintro ⟨_, ⟨⟩⟩
  | error stop after =>
    rw [ended] at appends
    exact failed_accounts appends stop

theorem reported_isError {host : Host σ} {act session} :
    (reported host act session).1.IsError ↔ ∃ stop after, act session = .error stop after := by
  unfold reported Report.IsError
  cases act session with
  | ok value after => simp
  | error stop after => simp [failed]

theorem run_ne_exit (host : Host σ) (source : String) (session after : Session σ) :
    run host source session ≠ .error (.fault .exit) after := by
  change Run.enclosed (finishing _) session ≠ _
  rw [enclosed_eq_after, finishing_eq]
  cases (engine host).run (scriptLines source) session.begin with
  | ok value after => nofun
  | error stop after =>
    cases stop with
    | fault cause => cases cause <;> nofun
    | tooDeep =>
      simp only [afterScript, afterEnclosed]
      split <;> nofun
    | _ => nofun

theorem runScript_isError {host : Host σ} {source session} :
    (runScript host source session).1.IsError ↔ Raises (run host source) session := by
  rw [runScript, reported_isError]
  unfold Raises
  cases ended : run host source session with
  | ok value after =>
    rw [Run.bind_ok ended]
    simp [Pure.pure, EStateM.pure]
  | error stop after =>
    rw [Run.bind_error ended]
    have other : stop ≠ .fault .exit := by
      rintro rfl
      exact run_ne_exit host source session after ended
    simp [other]

/-- An expression that is left by `finish` has Nil as its value. -/
def afterExpression : Ending σ Value → Ending σ Value
  | .error (.fault .exit) after => .ok .nil after
  | ending => ending

theorem runExpression_eq (host : Host σ) (text : String) :
    runExpression host text =
      reported host fun session => afterExpression (eval host text session) := by
  refine congrArg (reported host) (funext fun session => ?_)
  refine Run.attempt_bind (fun _ _ => rfl) fun stop after => ?_
  cases stop with
  | fault cause => cases cause <;> rfl
  | _ => rfl

theorem runExpression_isError {host : Host σ} {text session} :
    (runExpression host text session).1.IsError ↔ Raises (eval host text) session := by
  rw [runExpression_eq]
  refine reported_isError.trans ?_
  change (∃ stop after, afterExpression (eval host text session) = .error stop after) ↔
    ∃ stop after, eval host text session = .error stop after ∧ stop ≠ .fault .exit
  cases eval host text session with
  | ok value after => simp [afterExpression]
  | error stop after =>
    by_cases finished : stop = .fault .exit
    · simp [finished, afterExpression]
    · simp [finished, afterExpression]

theorem left_afterExpression (ending : Ending σ Value) :
    left (afterExpression ending) = left ending := by
  unfold afterExpression
  split <;> rfl

end Call

theorem runFile_script {host : Host σ} {read session after report}
    (handled : runFile host read session = .ok (report, after)) :
    after.vars.scripts.active = session.vars.scripts.active ∧
      (session.functions.scripts.active = session.vars.scripts.active →
        after.functions.scripts.active = session.functions.scripts.active) := by
  cases read with
  | ok file =>
    obtain ⟨_, rfl⟩ := Prod.mk.inj (Except.ok.inj handled)
    exact ⟨rfl, Eq.symm⟩
  | error stop =>
    cases stop with
    | fault cause =>
      obtain ⟨_, rfl⟩ := Prod.mk.inj (Except.ok.inj handled)
      exact ⟨rfl, fun _ => rfl⟩
    | _ => cases handled

/-! ### Calls in a row -/

/-- The reports of calls in a row. -/
def RunnerCall.handleAll (host : Host σ) : List RunnerCall → Session σ → List Report × Session σ
  | [], session => ([], session)
  | call :: calls, session =>
    match call.handle host session with
    | .ok (report, after) =>
      let (reports, last) := handleAll host calls after
      (report :: reports, last)
    | .error _ => handleAll host calls session

theorem open?_escape (tree : FileTree) (path : String) :
    (RunnerCall.file (tree.open? path)).escape? =
      if '\x00' ∈ path.toList then some .internal else none := by
  unfold FileTree.open?
  simp only [contains_iff_mem]
  split
  · rfl
  · cases tree.follow (Path.ofText path) <;> rfl

theorem ofBytes_escape (path : String) (bytes : ByteArray) :
    (RunnerCall.file (File.ofBytes path bytes)).escape? =
      if bytes.IsValidUTF8 then none else some .internal := by
  unfold File.ofBytes String.fromUTF8?
  by_cases valid : bytes.IsValidUTF8
  · rw [dif_pos valid, if_pos valid]
    rfl
  · rw [dif_neg valid, if_neg valid]
    rfl

section Recorded

variable (commands : ∀ id range bang params, Kept Session.Appends (command id range bang params))
  (functions : ∀ id args, Kept Session.Appends (function id args))
include commands functions

/-- Any other call has a report, which accounts for its effects and is one of an error if what it
runs fails. -/
theorem RunnerCall.handle_accounts {call : RunnerCall} (reports : call.escape? = none)
    (session : Session Recorder) :
    ∃ report after, call.handle (hostWith command function) session = .ok (report, after) ∧
      report.Accounts session after ∧
      (report.IsError ↔ call.Fails (hostWith command function) session) := by
  have lasting := Session.appends_lasting commands functions
  have scripts (source : String) (session : Session Recorder) :
      let result := runScript (hostWith command function) source session
      result.1.Accounts session result.2 := reported_accounts (lasting.perform (.run source)) session
  cases call with
  | script source => exact ⟨_, _, rfl, scripts source session, runScript_isError⟩
  | expression text =>
    have accounts : let result := runExpression (hostWith command function) text session
        result.1.Accounts session result.2 := by
      rw [runExpression_eq]
      exact reported_accounts (fun session =>
        left_afterExpression (eval _ text session) ▸ lasting.perform (.eval text) session) session
    exact ⟨_, _, rfl, accounts, runExpression_isError⟩
  | file read =>
    cases read with
    | ok file =>
      have accounts := scripts file.text (session.setScript (some (.name file.path)))
      exact ⟨_, _, rfl, ⟨accounts.effects, accounts.message⟩, runScript_isError⟩
    | error stop =>
      cases stop with
      | fault cause =>
        exact ⟨_, _, rfl, failed_accounts (.of_eq rfl) _, iff_of_true ⟨_, rfl⟩ trivial⟩
      | _ => cases reports

/-- The reports of calls in a row have the effects that were recorded. -/
theorem RunnerCall.handleAll_effects (calls : List RunnerCall) (session : Session Recorder) :
    let result := handleAll (hostWith command function) calls session
    result.2.host.effects.toList =
        session.host.effects.toList ++ result.1.flatMap Report.effects ∧
      result.1.length = calls.countP (·.escape?.isNone) := by
  induction calls generalizing session with
  | nil => exact ⟨(append_nil _).symm, rfl⟩
  | cons call calls ih =>
    rw [handleAll, countP_cons]
    cases escapes : call.escape? with
    | some stop =>
      rw [call.handle_escape escapes]
      exact ih session
    | none =>
      obtain ⟨report, after, handled, accounts, _⟩ :=
        call.handle_accounts commands functions escapes session
      rw [handled]
      obtain ⟨effects, length⟩ := ih after
      refine ⟨effects.trans ?_, congrArg (· + 1) length⟩
      rw [accounts.effects, append_assoc]
      rfl

/-- What a runner over a recording host reports of calls in a row is what the host has recorded
meanwhile. Every call has a report, but for a file that was not read for another reason than a fault:
a path with a null character, or bytes that are no UTF-8. A report is one of an error exactly if the
file could not be read or the run has stopped, and not by `finish`; then it ends with the only error
message in it. -/
theorem reports_account_for_effects :
    let host := hostWith command function
    (∀ calls session,
      (RunnerCall.handleAll host calls session).2.host.effects.toList =
          session.host.effects.toList ++
            (RunnerCall.handleAll host calls session).1.flatMap Report.effects ∧
        (RunnerCall.handleAll host calls session).1.length =
          calls.countP (·.escape?.isNone)) ∧
    (∀ (call : RunnerCall) (session : Session Recorder), call.escape? = none →
      ∃ report after, call.handle host session = .ok (report, after) ∧
        (report.IsError ↔ call.Fails host session) ∧
        (report.IsError → ∃ others, report.effects = others ++ [⟨.stderr, report.errorText⟩] ∧
          ∀ effect ∈ others, effect.topic ≠ .stderr) ∧
        ∀ read, call = .file read →
          after.vars.scripts.active = session.vars.scripts.active ∧
          (session.functions.scripts.active = session.vars.scripts.active →
            after.functions.scripts.active = session.functions.scripts.active)) ∧
    (∀ (call : RunnerCall) (session : Session Recorder) (stop : Stop),
      call.escape? = some stop → call.handle host session = .error stop) ∧
    (∀ (tree : FileTree) (path : String), (RunnerCall.file (tree.open? path)).escape? =
      if '\x00' ∈ path.toList then some .internal else none) ∧
    ∀ (path : String) (bytes : ByteArray), (RunnerCall.file (File.ofBytes path bytes)).escape? =
      if bytes.IsValidUTF8 then none else some .internal := by
  refine ⟨RunnerCall.handleAll_effects commands functions, fun call session reports => ?_,
    fun call session stop escapes => call.handle_escape escapes session, ?_, ?_⟩
  · obtain ⟨report, after, handled, accounts, fails⟩ :=
      call.handle_accounts commands functions reports session
    refine ⟨report, after, handled, fails, accounts.message, ?_⟩
    rintro read rfl
    exact runFile_script handled
  · exact open?_escape
  · exact ofBytes_escape

end Recorded

/-- A command that draws its parameters. -/
def Recorder.draw (_ : Nat) (_ : LineRange) (_ : Bool) (params : String) : Run Recorder Unit :=
  Run.onHost (record (.other "draw") params)

/-- A script that fails after a message, an expression, a file that does not exist, a path with a
null character, and a file. -/
theorem reports_account_for_effects_drawing :
    let host := hostWith draw Recorder.host.function
    let tree : FileTree := .ofList "/work" [] [("b.vim", "echo 3")]
    let calls : List RunnerCall := [.script "echo 1\necho nope", .expression "2",
      .file (tree.open? "a.vim"), .file (tree.open? "b\x00.vim"), .file (tree.open? "b.vim")]
    let session : Session Recorder := Session.new {} 5.0
    let result := RunnerCall.handleAll host calls session
    (∀ id range bang params, Kept Session.Appends (draw id range bang params)) ∧
      (∀ id args, Kept Session.Appends (Recorder.host.function id args)) ∧
      result.2.host.effects.toList =
        session.host.effects.toList ++ result.1.flatMap Report.effects ∧
      result.1.length = calls.countP (·.escape?.isNone) ∧
      result.1.map (·.effects.map Effect.topic) = [[.stdout, .stderr], [], [.stderr], [.stdout]] := by
  have commands (id : Nat) (range : LineRange) (bang : Bool) (params : String) :
      Kept Session.Appends (draw id range bang params) := fun _ =>
    ⟨[⟨.other "draw", params⟩], Array.toList_push, by simp⟩
  have functions (id : Nat) (args : List Value) :
      Kept Session.Appends (Recorder.host.function id args) := fun _ => .of_eq rfl
  obtain ⟨effects, length⟩ := (reports_account_for_effects commands functions).1 _ _
  exact ⟨commands, functions, effects, length, by decide +kernel⟩

/-- A path with a null character is not read, and no report tells of it. -/
theorem runFile_null_unreported :
    let call : RunnerCall := .file ((FileTree.ofList "/work" [] []).open? "a\x00.vim")
    let session : Session Recorder := Session.new {} 5.0
    call.Fails Recorder.host session ∧
      ¬∃ report after, call.handle Recorder.host session = .ok (report, after) := by
  refine ⟨trivial, ?_⟩
  rintro ⟨report, after, ⟨⟩⟩

end Vimlet
