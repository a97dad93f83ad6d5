import Vimlet.Proofs.Session.Balance

/-!
# Silence follows the nesting of statements

The interpreter counts the `silent` statements that are active since the innermost `unsilent`
statement, and the host keeps a flag. At every statement the count is the one that the nesting
gives, and the flag tells whether it is zero.
-/

namespace Vimlet

open Engine

variable {σ : Type}
variable {host : Host σ} {silent : σ → Bool} {session : Session σ} {activation : Activation}
  {active : Activity}

/-- How many `silent` statements are active since the innermost `unsilent` statement. -/
def Activity.silences (active : Activity) : Nat :=
  (active.takeWhile (· ≠ .unsilent)).count .silent

theorem Activity.silences_silent (active : Activity) :
    Activity.silences (.silent :: active) = active.silences + 1 := by
  simp [silences]

theorem Activity.silences_unsilent (active : Activity) :
    Activity.silences (.unsilent :: active) = 0 := by
  simp [silences]

theorem Activity.silences_other (active : Activity) (not_silent : activation ≠ .silent)
    (not_unsilent : activation ≠ .unsilent) :
    Activity.silences (activation :: active) = active.silences := by
  simp [silences, not_silent, not_unsilent]

/-! ### The flag of the host -/

namespace Session

/-- The host is silent if a `silent` statement is active. -/
def Attuned (silent : σ → Bool) (session : Session σ) : Prop :=
  silent session.host = decide (0 < session.silence)

/-- Inside of a run, silence is as before, and the host still knows about it. -/
def Hushed (silent : σ → Bool) (before after : Session σ) : Prop :=
  before.runs ≠ 0 → before.Attuned silent →
    after.runs = before.runs ∧ after.silence = before.silence ∧ after.Attuned silent

end Session

/-- A host with a flag that is set by the interpreter and by nothing else. -/
structure Host.Mutes (host : Host σ) (silent : σ → Bool) : Prop where
  setSilent (on : Bool) (state : σ) : silent (host.setSilent on state) = on
  echo (message : String) (state : σ) : silent (host.echo message state) = silent state
  command (id : Nat) (range : LineRange) (bang : Bool) (params : String) :
    Kept (Session.Hushed silent) (host.command id range bang params)
  function (id : Nat) (args : List Value) :
    Kept (Session.Hushed silent) (host.function id args)

namespace Session

variable {after : Session σ}

theorem Hushed.trans {first second third : Session σ} (before : first.Hushed silent second)
    (after : second.Hushed silent third) : first.Hushed silent third := by
  intro inside attuned
  obtain ⟨same_runs, same_silence, attuned⟩ := before inside attuned
  obtain ⟨same_runs', same_silence', attuned⟩ := after (same_runs ▸ inside) attuned
  exact ⟨same_runs'.trans same_runs, same_silence'.trans same_silence, attuned⟩

/-- A step that touches neither the silence nor the flag. -/
theorem Hushed.of_eq {before : Session σ} (same_runs : after.runs = before.runs)
    (same_silence : after.silence = before.silence)
    (same_flag : silent after.host = silent before.host) : before.Hushed silent after := by
  intro _ attuned
  refine ⟨same_runs, same_silence, ?_⟩
  rw [Attuned, same_flag, same_silence]
  exact attuned

theorem attuned_setSilence (mutes : host.Mutes silent) (session : Session σ) (silence : Nat) :
    (session.setSilence host silence).Attuned silent :=
  mutes.setSilent _ _

theorem attuned_begin : session.begin.Attuned silent ↔ session.Attuned silent := by
  unfold begin Attuned
  split <;> rfl

theorem silence_begin (session : Session σ) : session.begin.silence = session.silence := by
  unfold begin
  split <;> rfl

theorem runs_begin (session : Session σ) : session.begin.runs = session.runs + 1 := by
  unfold begin
  split <;> rfl

theorem Attuned.of_begun (attuned : session.Attuned silent)
    (inside : session.begin.Hushed silent after) :
    after.silence = session.silence ∧ after.Attuned silent := by
  have running : session.begin.runs ≠ 0 := by
    rw [runs_begin]
    exact Nat.succ_ne_zero _
  obtain ⟨_, same_silence, still⟩ := inside running (attuned_begin.mpr attuned)
  exact ⟨same_silence.trans session.silence_begin, still⟩

theorem hushed_lasting (mutes : host.Mutes silent) : WalkLasting host (Hushed silent) where
  refl _ := .of_eq rfl rfl rfl
  trans := .trans
  heap _ _ := .of_eq rfl rfl rfl
  echo _ _ := .of_eq rfl rfl (mutes.echo _ _)
  trace _ _ := .of_eq rfl rfl rfl
  patience _ _ := .of_eq rfl rfl rfl
  line _ _ := .of_eq rfl rfl rfl
  assign _ := .of_eq rfl rfl rfl
  declare _ := .of_eq rfl rfl rfl
  unlet _ := .of_eq rfl rfl rfl
  define _ := .of_eq rfl rfl rfl
  script _ hushed := hushed
  callback _ _ hushed := hushed
  enclosed hushed _ attuned :=
    have ⟨same_silence, attuned⟩ := attuned.of_begun hushed
    ⟨rfl, same_silence, attuned⟩
  unwound outermost _ inside := absurd outermost inside
  call _ hushed := hushed
  silent hushed inside _ := by
    obtain ⟨same_runs, same_silence, _⟩ := hushed inside (attuned_setSilence mutes _ _)
    exact ⟨same_runs, congrArg (· - 1) same_silence, attuned_setSilence mutes _ _⟩
  unsilent hushed inside _ := by
    obtain ⟨same_runs, _, _⟩ := hushed inside (attuned_setSilence mutes _ _)
    exact ⟨same_runs, rfl, attuned_setSilence mutes _ _⟩
  loop hushed := hushed
  frame hushed := hushed
  command := mutes.command
  function := mutes.function

/-! ### Silence and what is active -/

/-- Inside of a run, silence is what the active statements give, and the host knows about it. -/
structure Hearing (silent : σ → Bool) (active : Activity) (session : Session σ) : Prop where
  inside : session.runs ≠ 0
  attuned : session.Attuned silent
  silence : session.silence = active.silences

theorem Hearing.other (hearing : session.Hearing silent active) (not_silent : activation ≠ .silent)
    (not_unsilent : activation ≠ .unsilent) (same_runs : after.runs = session.runs)
    (same_silence : after.silence = session.silence) (same_host : after.host = session.host) :
    after.Hearing silent (activation :: active) where
  inside := same_runs ▸ hearing.inside
  attuned := by rw [Attuned, same_host, same_silence]; exact hearing.attuned
  silence := by
    rw [active.silences_other not_silent not_unsilent, same_silence]
    exact hearing.silence

theorem hearing_steady (mutes : host.Mutes silent) :
    Steady host (Hushed silent) (Hearing silent) where
  lasting := hushed_lasting mutes
  lasts_holds hushed hearing := by
    obtain ⟨same_runs, same_silence, attuned⟩ := hushed hearing.inside hearing.attuned
    exact ⟨same_runs ▸ hearing.inside, attuned, same_silence.trans hearing.silence⟩
  script _ hearing := { hearing with }
  callback _ _ hearing := { hearing with }
  start {_ session} hearing :=
    { inside := by rw [runs_begin]; exact Nat.succ_ne_zero _
      attuned := attuned_begin.mpr hearing.attuned
      silence := session.silence_begin.trans hearing.silence }
  call _ hearing := hearing.other (by decide) (by decide) rfl rfl rfl
  silent hearing :=
    { inside := hearing.inside
      attuned := attuned_setSilence mutes _ _
      silence := by rw [Activity.silences_silent, ← hearing.silence]; rfl }
  unsilent hearing :=
    { inside := hearing.inside
      attuned := attuned_setSilence mutes _ _
      silence := by rw [Activity.silences_unsilent]; rfl }
  loop hearing := hearing.other (by decide) (by decide) rfl rfl rfl
  condition hearing := hearing.other (by decide) (by decide) rfl rfl rfl
  iteration hearing := hearing.other (by decide) (by decide) rfl rfl rfl

theorem hearing_begin (session : Session σ) (attuned : session.Attuned silent)
    (quiet : session.silence = 0) : session.begin.Hearing silent [] where
  inside := by rw [runs_begin]; exact Nat.succ_ne_zero _
  attuned := attuned_begin.mpr attuned
  silence := session.silence_begin.trans quiet

/-! ### Requests -/

/-- A computation that keeps silence in a run does so as the outermost one too, where there is none
before. -/
theorem Attuned.enclosed {α : Type} (attuned : session.Attuned silent) (quiet : session.silence = 0)
    {act : Run σ α} (kept : Kept (Hushed silent) act) :
    (left (Run.enclosed act session)).silence = 0 ∧
      (left (Run.enclosed act session)).Attuned silent := by
  obtain ⟨same_silence, still⟩ := attuned.of_begun (kept session.begin)
  rw [quiet] at same_silence
  obtain same | ⟨_, same⟩ := left_enclosed act session
  · exact same ▸ ⟨same_silence, still⟩
  · -- what the reset does to the counter has been done already
    rw [Attuned, same_silence] at still
    exact same ▸ ⟨rfl, still⟩

theorem Attuned.perform (mutes : host.Mutes silent) (attuned : session.Attuned silent)
    (quiet : session.silence = 0) (request : Request) :
    (left (request.perform host session)).silence = 0 ∧
      (left (request.perform host session)).Attuned silent :=
  (hushed_lasting mutes).perform_left (fun after => after.silence = 0 ∧ after.Attuned silent)
    (attuned.enclosed quiet) request

end Session

/-! ### Statements -/

def echoText (engine : Engine σ) (line : Line) : Run σ String := do
  if Text.allBlank line.params.toList then return ""
  else
    let value ← Run.enclosed (engine.eval line.params)
    return (← get).heap.text value

section Statements

variable (mutes : host.Mutes silent) (depth : Nat) (line : Line)
include mutes

theorem executeSimple_hushed {keyword} (silencing : keyword ∈ ["silent", "unsilent"]) :
    Kept (Session.Hushed silent)
      (executeSimple host (ofDepth host depth) keyword line) := by
  have lasting := Session.hushed_lasting mutes
  have kept := lasting.engine depth
  have nested : Kept (Session.Hushed silent) (runNested (ofDepth host depth) line) := by
    unfold runNested
    split
    · exact kept.run _
    · exact lasting.pure ()
  have begun {act : Run σ Unit} (message : String) (acts : Kept (Session.Hushed silent) act) :
      Kept (Session.Hushed silent) (do Run.setLine line; Run.note message; act) :=
    lasting.bind (lasting.setLine line) fun _ => lasting.bind (lasting.note message) fun _ => acts
  obtain rfl | rfl : keyword = "silent" ∨ keyword = "unsilent" := by simpa using silencing
  · exact begun _ (executeSilent_eq host _ line ▸ lasting.inSilence _ nested)
  · exact begun _ (executeUnsilent_eq host _ line ▸ lasting.outOfSilence nested)

omit mutes in
theorem runCommand_echo (engine : Engine σ) :
    runCommand host engine .echo line =
      echoText engine line >>= fun text => Run.onHost (host.echo text) := by
  by_cases blank : Text.allBlank line.params.toList = true
  · simp only [runCommand, echoText, blank, if_true, pure_bind]
  · simp only [runCommand, echoText, blank, Bool.false_eq_true, if_false, bind_assoc, pure_bind]

theorem echoText_hushed :
    Kept (Session.Hushed silent) (echoText (ofDepth host depth) line) := by
  have lasting := Session.hushed_lasting mutes
  unfold echoText
  split
  · exact lasting.pure _
  · refine lasting.bind (lasting.runEnclosed ((lasting.engine depth).eval _)) fun value => ?_
    exact Lasting.inspect fun _ => lasting.pure _

/-- A host that drops messages while it is silent shows a message exactly if no `silent` statement
is active. -/
theorem runCommand_echo_of_hearing {record : String → σ → σ}
    (drops : ∀ message state,
      host.echo message state = if silent state then state else record message state)
    (hearing : session.Hearing silent active) :
    runCommand host (ofDepth host depth) .echo line session =
      (do
        let text ← echoText (ofDepth host depth) line
        if active.silences = 0 then Run.onHost (record text)) session := by
  rw [runCommand_echo]
  have evaluated := echoText_hushed mutes depth line session
  cases ended : echoText (ofDepth host depth) line session with
  | ok text after =>
    rw [ended] at evaluated
    obtain ⟨_, same_silence, attuned⟩ := evaluated hearing.inside hearing.attuned
    rw [Run.bind_ok ended, Run.bind_ok ended]
    have flag : silent after.host = decide (0 < active.silences) := by
      rw [← hearing.silence, ← same_silence]
      exact attuned
    have shown : Run.onHost (host.echo text) after =
        .ok () { after with host := host.echo text after.host } := rfl
    rw [shown, drops, flag]
    by_cases none_active : active.silences = 0
    · simp only [none_active, Nat.lt_irrefl, decide_false, Bool.false_eq_true, if_false, if_true]
      rfl
    · simp only [none_active, Nat.pos_of_ne_zero none_active, decide_true, if_true, if_false]
      rfl
  | error stop after =>
    rw [Run.bind_error ended, Run.bind_error ended]

end Statements

theorem Recorder.host_mutes : Recorder.host.Mutes Recorder.silent where
  setSilent _ _ := rfl
  echo message recorder := by
    change (recorder.echo message).silent = _
    unfold Recorder.echo
    split <;> rfl
  command _ _ _ _ _ := .of_eq rfl rfl rfl
  function _ _ _ := .of_eq rfl rfl rfl

/-- A request that starts without silence ends without. At every statement the `silent` statements
since the innermost `unsilent` are counted, and the host is silent exactly if there are some.
However such a statement ends, count and flag are as before it, and an `echo` is heard exactly if
the count is zero. -/
theorem silence_follows_nesting {host : Host σ} {silent : σ → Bool} (mutes : host.Mutes silent)
    {session : Session σ} (quiet : session.silence = 0) (off : silent session.host = false)
    (request : Request) :
    (left (request.perform host session)).silence = 0 ∧
      silent (left (request.perform host session)).host = false ∧
      request.EveryLine host session fun active line there =>
        there.silence = active.silences ∧ silent there.host = decide (0 < there.silence) ∧
        ∀ depth patience,
          (∀ keyword ∈ ["silent", "unsilent"],
            let after := left (executeSimple host (ofDepth host depth) keyword line
              (there.withPatience patience))
            after.silence = there.silence ∧ silent after.host = silent there.host) ∧
          ∀ record : String → σ → σ,
            (∀ message state,
              host.echo message state = if silent state then state else record message state) →
            runCommand host (ofDepth host depth) .echo line (there.withPatience patience) =
              (do
                let text ← echoText (ofDepth host depth) line
                if active.silences = 0 then Run.onHost (record text))
              (there.withPatience patience) := by
  have attuned : session.Attuned silent := by rw [Session.Attuned, off, quiet]; rfl
  obtain ⟨still_quiet, still_attuned⟩ := attuned.perform mutes quiet request
  refine ⟨still_quiet, by rw [still_attuned, still_quiet]; rfl, ?_⟩
  refine (Session.hearing_steady mutes).everyLine ?_ request (session.hearing_begin attuned quiet)
  intro active line there hearing
  refine ⟨hearing.silence, hearing.attuned, fun depth patience => ⟨?_, fun record drops => ?_⟩⟩
  · intro keyword silencing
    obtain ⟨_, same_silence, attuned⟩ := executeSimple_hushed mutes depth line silencing
      (there.withPatience patience) hearing.inside hearing.attuned
    refine ⟨same_silence, attuned.trans ?_⟩
    rw [same_silence]
    exact hearing.attuned.symm
  · exact runCommand_echo_of_hearing mutes depth line drops { hearing with }

/-- Only what is shown under no `silent` statement, or directly under an `unsilent` one, is recorded
here. -/
theorem silence_follows_nesting_recorded :
    let session : Session Recorder := Session.new {} 5.0
    let request : Request :=
      .run "function F()\nunsilent echo 'a'\necho 'b'\nendfunction\nsilent call F()\necho 'c'"
    (left (request.perform Recorder.host session)).host.effects.map (·.message) = #["a", "c"] ∧
      (∀ message (recorder : Recorder), Recorder.host.echo message recorder =
        if recorder.silent then recorder else recorder.record .stdout message) ∧
      (left (request.perform Recorder.host session)).silence = 0 ∧
      (left (request.perform Recorder.host session)).host.silent = false ∧
      request.EveryLine Recorder.host session fun active line there =>
        there.silence = active.silences ∧ there.host.silent = decide (0 < there.silence) ∧
        ∀ depth patience,
          (∀ keyword ∈ ["silent", "unsilent"],
            let after := left (executeSimple Recorder.host (ofDepth Recorder.host depth)
              keyword line (there.withPatience patience))
            after.silence = there.silence ∧ after.host.silent = there.host.silent) ∧
          ∀ record : String → Recorder → Recorder,
            (∀ message recorder, Recorder.host.echo message recorder =
              if recorder.silent then recorder else record message recorder) →
            runCommand Recorder.host (ofDepth Recorder.host depth) .echo line
                (there.withPatience patience) =
              (do
                let text ← echoText (ofDepth Recorder.host depth) line
                if active.silences = 0 then Run.onHost (record text))
              (there.withPatience patience) :=
  ⟨by decide +kernel, fun _ _ => rfl, silence_follows_nesting Recorder.host_mutes rfl rfl _⟩

end Vimlet
