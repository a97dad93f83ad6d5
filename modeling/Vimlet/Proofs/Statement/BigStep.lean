import Vimlet.Proofs.Interpreter.Patience
import Vimlet.Proofs.Statement.Structure

/-!
# Big-step semantics of structured scripts

The meaning of a script follows its tree and knows nothing of the stream of statements, of modes or
of time. The interpreter ends in a way, given enough time, exactly if the meaning of the script
allows it.
-/

namespace Vimlet

open Run Session

variable {σ α β : Type}
variable {act : Run σ α} {body : Run σ Unit} {engine : Engine σ} {ending : Ending σ α} {line : Line}

/-- Which endings belong to the sessions in which a computation starts. -/
abbrev Meaning (σ α : Type) := Session σ → Ending σ α → Prop

/-- A computation ends in a way if it has enough time. How much time it took is not told. -/
def Settles (act : Run σ α) : Meaning σ α := fun session ending =>
  ∃ patience, ¬TimedOut (act (session.withPatience patience)) ∧
    onLeft (·.withPatience session.patience) (act (session.withPatience patience)) = ending

/-! ### Putting meanings together -/

namespace Meaning

def pure (value : α) : Meaning σ α := fun session ending => ending = .ok value session

/-- One after the other; what stops the first one stops both. -/
def andThen (first : Meaning σ α) (next : α → Meaning σ β) : Meaning σ β := fun session ending =>
  (∃ value after, first session (.ok value after) ∧ next value after ending) ∨
    ∃ stop after, first session (.error stop after) ∧ ending = .error stop after

/-- A session is changed before, and the ending afterwards. -/
def within (enter : Session σ → Session σ) (leave : Ending σ α → Ending σ α)
    (inner : Meaning σ α) : Meaning σ α := fun session ending =>
  ∃ ended, inner (enter session) ended ∧ ending = leave ended

/-- One iteration of a loop; a `continue` ends it. -/
def iteration (body : Meaning σ Unit) : Meaning σ Unit := body.within id afterIteration

/-- A loop around its iterations; a `break` ends it. -/
def loop (iterations : Meaning σ Unit) : Meaning σ Unit :=
  iterations.within enterLoop fun ended => onLeft leaveLoop (afterLoop ended)

/-- In a frame of its own, through which outer variables can be seen and changed. -/
def inFrame (inner : Meaning σ Unit) : Meaning σ Unit :=
  inner.within (·.enter false) (onLeft Session.leave)

/-- The iterations of a `while` loop. The condition is asked before each of them. -/
inductive Repeats (holds : Meaning σ Bool) (body : Meaning σ Unit) : Meaning σ Unit where
  | ends {session after} :
      holds session (.ok false after) → Repeats holds body session (.ok () after)
  | fails {session after stop} :
      holds session (.error stop after) → Repeats holds body session (.error stop after)
  | again {session asked after ending} :
      holds session (.ok true asked) → body.iteration asked (.ok () after) →
      Repeats holds body after ending → Repeats holds body session ending
  | stops {session asked after stop} :
      holds session (.ok true asked) → body.iteration asked (.error stop after) →
      Repeats holds body session (.error stop after)

/-- The iterations of a `for` loop, one for each item, in a frame that binds the pattern. -/
def forEach (pattern : Pattern) (body : Meaning σ Unit) : List Value → Meaning σ Unit
  | [] => pure ()
  | item :: rest =>
    (inFrame ((Settles (bindPattern declare pattern item)).andThen fun _ =>
      body.iteration)).andThen fun _ => forEach pattern body rest

theorem pure_andThen (value : α) (next : α → Meaning σ β) :
    (pure value).andThen next = next value := by
  funext session ending
  refine propext ⟨?_, fun means => .inl ⟨value, session, rfl, means⟩⟩
  rintro (⟨_, _, same, means⟩ | ⟨_, _, same, _⟩)
  · cases same
    exact means
  · cases same

theorem andThen_pure (first : Meaning σ Unit) : first.andThen pure = first := by
  funext session ending
  refine propext ⟨?_, fun means => ?_⟩
  · rintro (⟨_, _, means, rfl⟩ | ⟨_, _, means, rfl⟩)
    · exact means
    · exact means
  · rcases ending with ⟨_, after⟩ | ⟨stop, after⟩
    · exact .inl ⟨(), after, means, rfl⟩
    · exact .inr ⟨stop, after, means, rfl⟩

end Meaning

/-! ### The meaning of a script -/

/-- Evaluates the header of a `for` statement: the pattern, and the items as they are then. -/
def loopItems (engine : Engine σ) (line : Line) : Run σ (Pattern × List Value) := do
  setLine line
  let header ← ofExcept (LoopHeader.parse line.params)
  let pattern ← ofExcept (Pattern.parse header.pattern)
  let value ← engine.eval header.expression
  let items ← onHeap (Mem.elements value)
  return (pattern, items)

def functionHeader (line : Line) : Run σ FunctionHeader := do
  setLine line
  ofExcept (FunctionHeader.parse line.params)

namespace Script

/-- The big-step semantics of a script. The first branch whose condition holds is run, and the
conditions after it are not asked. -/
def Runs (host : Host σ) (engine : Engine σ) : {part : Part} → Script part → Meaning σ Unit
  | _, done => .pure ()
  | _, simple line next =>
    (Settles (executeSimple host engine line.val.keyword line)).andThen fun _ =>
      next.Runs host engine
  | _, conditional head first others _ next =>
    ((Settles (condition engine head)).andThen fun holds =>
      if holds then first.Runs host engine else others.Runs host engine).andThen fun _ =>
        next.Runs host engine
  | _, whileLoop head body _ next =>
    (Meaning.loop (.Repeats (Settles (condition engine head)) (body.Runs host engine))).andThen
      fun _ => next.Runs host engine
  | _, forLoop head body _ next =>
    ((Settles (loopItems engine head)).andThen fun (pattern, items) =>
      Meaning.loop (.forEach pattern (body.Runs host engine) items)).andThen fun _ =>
        next.Runs host engine
  | _, function head body _ next =>
    ((Settles (functionHeader head)).andThen fun header =>
      Settles (defineFunction header body.lines)).andThen fun _ => next.Runs host engine
  | _, noBranch => .pure ()
  | _, otherwise _ body => body.Runs host engine
  | _, elseIf head body others =>
    (Settles (condition engine head)).andThen fun holds =>
      if holds then body.Runs host engine else others.Runs host engine

end Script

/-! ### Computations and their meaning -/

variable {session : Session σ}

theorem settles_iff :
    Settles act session ending ↔
      ¬TimedOut ending ∧ (left ending).patience = session.patience ∧
        ∃ patience remaining,
          act (session.withPatience patience) = onLeft (·.withPatience remaining) ending := by
  constructor
  · rintro ⟨patience, in_time, rfl⟩
    refine ⟨by rwa [timedOut_onLeft], by rw [left_onLeft, withPatience_patience], patience,
      (left (act (session.withPatience patience))).patience, ?_⟩
    cases act (session.withPatience patience) <;> rfl
  · rintro ⟨in_time, same, patience, remaining, ended⟩
    refine ⟨patience, by rwa [ended, timedOut_onLeft], ?_⟩
    rw [ended, ← same]
    cases ending <;> rfl

theorem Patient.add_patience (patient : Patient act) (inside : session.runs ≠ 0)
    (in_time : ¬TimedOut ending) {patience remaining}
    (ended : act (session.withPatience patience) = onLeft (·.withPatience remaining) ending)
    (extra : Nat) :
    act (session.withPatience (patience + extra)) =
      onLeft (·.withPatience (remaining + extra)) ending := by
  have in_time_before : ¬TimedOut (act (session.withPatience patience)) := by
    rwa [ended, timedOut_onLeft]
  have inside_before : (session.withPatience patience).runs ≠ 0 := inside
  refine (patient.grant extra inside_before in_time_before).trans ?_
  rw [ended]
  cases ending <;> rfl

/-- Inside of a run a computation settles in the ways that a meaning allows. -/
structure Means (act : Run σ α) (meaning : Meaning σ α) : Prop where
  patient : Patient act
  iff {session : Session σ} {ending} (inside : session.runs ≠ 0) :
    Settles act session ending ↔ meaning session ending

namespace Means

variable {next : α → Run σ β} {meaning : Meaning σ α} {next_meaning : α → Meaning σ β}

theorem settles (patient : Patient act) : Means act (Settles act) := ⟨patient, fun _ => .rfl⟩

theorem pure (value : α) : Means (pure value : Run σ α) (Meaning.pure value) where
  patient := .pure value
  iff {session _} _ :=
    ⟨fun ⟨_, _, same⟩ => same.symm, fun same => ⟨session.patience, id, same.symm⟩⟩

theorem bind (first : Means act meaning)
    (second : ∀ value, Means (next value) (next_meaning value)) :
    Means (act >>= next) (meaning.andThen next_meaning) where
  patient := .bind first.patient fun value => (second value).patient
  iff {session ending} inside := by
    constructor
    · rintro ⟨patience, in_time, rfl⟩
      have kept : (left (act (session.withPatience patience))).runs = session.runs :=
        first.patient.runs_eq inside
      cases ended : act (session.withPatience patience) with
      | ok value after =>
        rw [ended] at kept
        rw [bind_ok ended] at in_time ⊢
        have settled : Settles act session (.ok value (after.withPatience session.patience)) :=
          ⟨patience, by simp [ended], by rw [ended]; rfl⟩
        refine .inl ⟨value, _, (first.iff inside).mp settled, ?_⟩
        exact ((second value).iff (kept ▸ inside)).mp ⟨after.patience, in_time, rfl⟩
      | error stop after =>
        rw [bind_error ended] at in_time ⊢
        have settled : Settles act session (.error stop (after.withPatience session.patience)) :=
          ⟨patience, by rwa [ended], by rw [ended]; rfl⟩
        exact .inr ⟨stop, _, (first.iff inside).mp settled, rfl⟩
    · rintro (⟨value, after, means, later⟩ | ⟨stop, after, means, rfl⟩)
      · obtain ⟨_, same, patience, remaining, ended⟩ :=
          settles_iff.mp ((first.iff inside).mpr means)
        have kept : (left (act (session.withPatience patience))).runs = session.runs :=
          first.patient.runs_eq inside
        rw [ended] at kept
        have inside_after : after.runs ≠ 0 := kept ▸ inside
        obtain ⟨in_time, same_later, enough, rest, ended_later⟩ :=
          settles_iff.mp (((second value).iff inside_after).mpr later)
        refine settles_iff.mpr ⟨in_time, same_later.trans same, patience + enough,
          rest + remaining, ?_⟩
        -- each of the two parts leaves the time alone that the other one needs
        rw [bind_ok (first.patient.add_patience inside id ended enough), Nat.add_comm remaining]
        exact (second value).patient.add_patience inside_after in_time ended_later remaining
      · obtain ⟨in_time, same, patience, remaining, ended⟩ :=
          settles_iff.mp ((first.iff inside).mpr means)
        exact settles_iff.mpr ⟨in_time, same, patience, remaining, bind_error ended⟩

theorem within {wrapped} {enter : Session σ → Session σ} {leave : Ending σ α → Ending σ α}
    (means : Means act meaning)
    (wrapped_eq : ∀ session, wrapped session = leave (act (enter session)))
    (enter_timeless : Timeless enter) (leave_timeless : TimelessChange leave) :
    Means wrapped (meaning.within enter leave) where
  patient := (funext wrapped_eq : wrapped = _) ▸
    means.patient.within enter enter_timeless (fun _ => leave_timeless) fun _ _ => rfl
  iff {session ending} inside := by
    have inside_entered : (enter session).runs ≠ 0 := by rwa [enter_timeless.runs_eq]
    constructor
    · rintro ⟨patience, in_time, rfl⟩
      rw [wrapped_eq, enter_timeless.withPatience] at in_time ⊢
      rw [leave_timeless.timedOut_iff] at in_time
      rw [← leave_timeless.withPatience, ← enter_timeless.patience_eq]
      exact ⟨_, (means.iff inside_entered).mp ⟨patience, in_time, rfl⟩, rfl⟩
    · rintro ⟨ended, inner, rfl⟩
      obtain ⟨patience, in_time, rfl⟩ := (means.iff inside_entered).mpr inner
      refine ⟨patience, ?_, ?_⟩
      · rwa [wrapped_eq, enter_timeless.withPatience, leave_timeless.timedOut_iff]
      · rw [wrapped_eq, enter_timeless.withPatience, ← leave_timeless.withPatience,
          ← enter_timeless.patience_eq]

theorem spend (count : Nat) : Means (Run.spend count : Run σ Unit) (Meaning.pure ()) where
  patient := .spend count
  iff {session ending} _ := by
    constructor
    · rintro ⟨patience, in_time, rfl⟩
      rw [spend_eq] at in_time ⊢
      split at in_time
      · rename_i enough
        rw [if_pos enough]
        rfl
      · exact absurd trivial in_time
    · rintro rfl
      refine settles_iff.mpr ⟨by simp, rfl, count, 0, ?_⟩
      rw [spend_eq, withPatience_patience, if_pos (Nat.le_refl count), Nat.sub_self]
      rfl

theorem afterSpend (means : Means act meaning) (count : Nat) :
    Means (do Run.spend count; act) meaning := by
  rw [← Meaning.pure_andThen () fun _ => meaning]
  exact (Means.spend count).bind fun _ => means

theorem andSpend {act : Run σ Unit} {meaning} (means : Means act meaning) (count : Nat) :
    Means (do act; Run.spend count) meaning := by
  rw [← meaning.andThen_pure]
  exact means.bind fun _ => .spend count

/-! ### Loops -/

theorem iteration {meaning} (means : Means body meaning) :
    Means (iteration body) meaning.iteration :=
  means.within (iteration_eq body) ⟨fun _ _ => rfl, fun _ => rfl⟩ .afterIteration

theorem loop {iterations : Run σ Unit} {meaning} (means : Means iterations meaning) :
    Means (loop iterations) meaning.loop :=
  means.within (loop_eq iterations) ⟨fun _ _ => rfl, fun _ => rfl⟩
    (.comp (.onLeft leaveLoop ⟨fun _ _ => rfl, fun _ => rfl⟩) .afterLoop)

theorem inFrame {meaning} (means : Means body meaning) :
    Means (do modify (·.enter false); ensure (·.leave) body) meaning.inFrame :=
  means.within (fun _ => ensure_eq _) ⟨fun _ _ => rfl, fun _ => rfl⟩
    (.onLeft Session.leave ⟨fun _ _ => rfl, fun _ => rfl⟩)

theorem repeatFor (pattern : Pattern) {meaning} (means : Means body meaning) (items : List Value) :
    Means (repeatFor pattern body items) (.forEach pattern meaning items) := by
  induction items with
  | nil => exact .pure ()
  | cons item rest ih =>
    have bound : Means (do bindPattern declare pattern item; Vimlet.iteration body) _ :=
      (Means.settles (.bindPattern pattern item)).bind fun _ => means.iteration
    have whole := bound.inFrame.bind fun _ => ih
    rwa [bind_assoc] at whole

end Means

/-- The iterations of a `while` loop, if there are less than a number of them. -/
def Meaning.repeatsWithin (holds : Meaning σ Bool) (body : Meaning σ Unit) : Nat → Meaning σ Unit
  | 0 => fun _ _ => False
  | count + 1 => holds.andThen fun answer =>
    if answer then body.iteration.andThen fun _ => repeatsWithin holds body count else .pure ()

theorem Meaning.repeats_iff {holds body ending} :
    Repeats holds body session ending ↔ ∃ count, repeatsWithin holds body count session ending := by
  constructor
  · intro repeats
    induction repeats with
    | ends asked => exact ⟨1, .inl ⟨false, _, asked, rfl⟩⟩
    | fails asked => exact ⟨1, .inr ⟨_, _, asked, rfl⟩⟩
    | again asked iterated _ ih =>
      obtain ⟨count, within⟩ := ih
      exact ⟨count + 1, .inl ⟨true, _, asked, .inl ⟨(), _, iterated, within⟩⟩⟩
    | stops asked iterated => exact ⟨1, .inl ⟨true, _, asked, .inr ⟨_, _, iterated, rfl⟩⟩⟩
  · rintro ⟨count, within⟩
    induction count generalizing session with
    | zero => exact within.elim
    | succ count ih =>
      rcases within with ⟨answer, after, asked, later⟩ | ⟨stop, after, asked, rfl⟩
      · cases answer with
        | false =>
          obtain rfl : ending = .ok () after := later
          exact .ends asked
        | true =>
          rcases later with ⟨_, again, iterated, rest⟩ | ⟨stop, again, iterated, rfl⟩
          · exact .again asked iterated (ih rest)
          · exact .stops asked iterated
      · exact .fails asked

namespace Means

variable {holds : Run σ Bool} {holds_meaning : Meaning σ Bool} {meaning : Meaning σ Unit}

theorem repeatWhile (asked : Means holds holds_meaning) (means : Means body meaning) (count : Nat) :
    Means (repeatWhile holds body count) (.repeatsWithin holds_meaning meaning count) := by
  induction count with
  | zero =>
    refine ⟨.repeatWhile asked.patient means.patient 0, fun inside => ?_⟩
    exact ⟨fun ⟨_, in_time, _⟩ => in_time trivial, False.elim⟩
  | succ count ih =>
    refine asked.bind fun answer => ?_
    cases answer with
    | false => exact .pure ()
    | true =>
      have again := (means.iteration.bind fun _ => ih).afterSpend 1
      rwa [spend_one] at again

theorem runWhile (asked : Patient (condition engine line)) (means : Means body meaning) :
    Means (runWhile engine line body)
      (Meaning.loop (.Repeats (Settles (condition engine line)) meaning)) where
  patient := .runWhile line asked means.patient
  iff {session ending} inside := by
    have bounded (count : Nat) := (repeatWhile (.settles asked) means count).loop
    constructor
    · rintro ⟨patience, in_time, loop_ended⟩
      obtain ⟨ended, within, rfl⟩ := ((bounded (patience + 1)).iff inside).mp
        ⟨patience, in_time, loop_ended⟩
      exact ⟨ended, Meaning.repeats_iff.mpr ⟨_, within⟩, rfl⟩
    · rintro ⟨ended, repeats, rfl⟩
      obtain ⟨count, within⟩ := Meaning.repeats_iff.mp repeats
      have settled := ((bounded count).iff inside).mpr ⟨ended, within, rfl⟩
      obtain ⟨in_time, same, patience, remaining, loop_ended⟩ := settles_iff.mp settled
      refine settles_iff.mpr ⟨in_time, same, patience + count, remaining + count, ?_⟩
      have enough := (bounded count).patient.add_patience inside in_time loop_ended count
      rw [← enough]
      have in_time_enough : ¬TimedOut (Vimlet.loop (Vimlet.repeatWhile (condition engine line) body
          count) (session.withPatience (patience + count))) := by
        rwa [enough, timedOut_onLeft]
      have more := loop_repeatWhile_add in_time_enough (patience + 1)
      rwa [Nat.add_left_comm, ← Nat.add_assoc] at more

/-- The time that a statement takes is not part of its meaning. -/
theorem statement {meaning} (means : Means act meaning) :
    Means (do checkPatience; act) meaning := by
  rw [← spend_one]
  exact means.afterSpend 1

theorem branch (asked : Patient (condition engine line)) {yes no yes_meaning no_meaning}
    (yes_means : Means yes yes_meaning) (no_means : Means no no_meaning) :
    Means (branch engine line yes no) ((Settles (condition engine line)).andThen fun holds =>
      if holds then yes_meaning else no_meaning) := by
  refine (Means.settles asked).bind fun holds => ?_
  cases holds with
  | true => exact yes_means
  | false => exact no_means

end Means

theorem runFor_eq (engine : Engine σ) (line : Line) (body : Run σ Unit) :
    runFor engine line body =
      loopItems engine line >>= fun (pattern, items) => loop (repeatFor pattern body items) := by
  simp only [runFor, loopItems, bind_assoc, pure_bind]

section Scripts

variable {host : Host σ} (patient : host.Patient) (engine_patient : engine.Patient)
include patient engine_patient

omit patient in
theorem Means.runFor {meaning} (line : Line) (means : Means body meaning) :
    Means (runFor engine line body) ((Settles (loopItems engine line)).andThen
      fun (pattern, items) => Meaning.loop (.forEach pattern meaning items)) := by
  have header_patient : Patient (loopItems engine line) := by
    refine .bind (.modify ⟨fun _ _ => rfl, fun _ => rfl⟩) fun _ => .bind (.ofExcept _) fun _ => ?_
    refine .bind (.ofExcept _) fun pattern => .bind (engine_patient.eval _) fun value => ?_
    exact .bind (.onHeap _) fun items => .pure _
  rw [runFor_eq]
  refine (Means.settles header_patient).bind fun (pattern, items) => ?_
  exact (means.repeatFor pattern items).loop

/-- The execution of a structured script has its meaning. -/
theorem Script.execute_means {part} (script : Script part) :
    Means (script.execute host engine) (script.Runs host engine) := by
  have cong := patient.walkCongruence
  have asked (line : Line) : Patient (condition engine line) :=
    @WalkCongruence.condition _ _ _ _ cong [] engine engine line engine_patient.eval
  induction script with
  | done => exact .pure ()
  | simple line next ih =>
    have executed : Patient (executeSimple host engine line.val.keyword line) :=
      @CallCongruence.executeWatched _ _ _ _ cong.toCallCongruence (fun _ => engine) engine
        (fun _ => engine_patient) [] _ line (cong.setLine [] line)
    exact ((Means.settles executed).bind fun _ => ih).statement
  | conditional head first others closing next first_ih others_ih next_ih =>
    have chosen := Means.branch (asked head) (first_ih.andSpend (others.lines.length + 1))
      (others_ih.afterSpend first.lines.length)
    exact (chosen.bind fun _ => next_ih).statement
  | whileLoop head body closing next body_ih next_ih =>
    have repeated := Means.runWhile (asked head) (body_ih.andSpend 1)
    rw [spend_one] at repeated
    exact (repeated.bind fun _ => next_ih.afterSpend (body.lines.length + 1)).statement
  | forLoop head body closing next body_ih next_ih =>
    have repeated := Means.runFor engine_patient head (body_ih.andSpend 1)
    rw [spend_one] at repeated
    exact (repeated.bind fun _ => next_ih.afterSpend (body.lines.length + 1)).statement
  | function head body closing next body_ih next_ih =>
    have header_patient : Patient (functionHeader head.val : Run σ FunctionHeader) :=
      .bind (.modify ⟨fun _ _ => rfl, fun _ => rfl⟩) fun _ => .ofExcept _
    have defined := (Means.settles header_patient).bind fun header =>
      (Means.settles (.defineFunction header body.lines)).afterSpend (body.lines.length + 1)
    have whole := (defined.bind fun _ => next_ih).statement
    simp only [functionHeader, bind_assoc] at whole
    exact whole
  | noBranch =>
    have spent : Means (Run.spend 1 : Run σ Unit) _ := .spend 1
    rwa [spend_one] at spent
  | otherwise head body ih =>
    have run := (ih.andSpend 1).statement
    rwa [spend_one] at run
  | elseIf head body others body_ih others_ih =>
    exact (Means.branch (asked head) (body_ih.andSpend (others.lines.length + 1))
      (others_ih.afterSpend body.lines.length)).statement

end Scripts

/-- Inside of a run and given enough time, the statements of a structured script end in the ways
that the big-step semantics of its tree allows, and in no others. -/
theorem runLines_settles_iff_runs {host : Host σ} (patient : host.Patient) (depth : Nat)
    (script : Script .body) {session : Session σ} (inside : session.runs ≠ 0)
    {ending : Ending σ Unit} :
    Settles (runLines host (Engine.ofDepth host depth) script.lines) session ending ↔
      script.Runs host (Engine.ofDepth host depth) session ending := by
  rw [script.runLines_lines]
  exact (script.execute_means patient (Engine.ofDepth_patient patient depth)).iff inside

theorem Recorder.host_patient : Recorder.host.Patient :=
  ⟨fun _ _ _ _ => .throw _, fun _ _ => .throw _⟩

/-- A loop whose condition always holds. It is left by `break` in the second branch of a
conditional. -/
def Script.endless : Script .body :=
  .whileLoop ⟨⟨.current, "while", false, "1", 1⟩, by decide⟩
    (.conditional ⟨⟨.current, "if", false, "0", 2⟩, by decide⟩
      (.simple ⟨⟨.current, "continue", false, "", 3⟩, by decide⟩ .done)
      (.otherwise ⟨⟨.current, "else", false, "", 4⟩, by decide⟩
        (.simple ⟨⟨.current, "break", false, "", 5⟩, by decide⟩ .done))
      ⟨⟨.current, "endif", false, "", 6⟩, by decide⟩ .done)
    ⟨⟨.current, "endwhile", false, "", 7⟩, by decide⟩ .done

theorem runLines_settles_iff_runs_endless :
    ∃ after, Script.endless.Runs Recorder.host (Engine.ofDepth Recorder.host 2)
      { new {} 5.0 with runs := 1 } (.ok () after) := by
  have ends : (match runLines Recorder.host (Engine.ofDepth Recorder.host 2) Script.endless.lines
      (withPatience { new {} 5.0 with runs := 1 } 20) with
    | .ok _ _ => true
    | .error _ _ => false) = true := by decide +kernel
  split at ends
  · rename_i value after ended
    refine ⟨after.withPatience 0, ?_⟩
    refine (runLines_settles_iff_runs Recorder.host_patient 2 _ Nat.one_ne_zero).mp ?_
    exact ⟨20, by rw [ended]; exact id, by rw [ended]; rfl⟩
  · cases ends

end Vimlet
