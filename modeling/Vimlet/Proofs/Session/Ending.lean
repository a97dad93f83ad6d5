import Vimlet.Session.Entry

/-!
# How computations end

A computation in a session ends with a value or stops, and leaves a session in either case. This
file opens the sequence of two computations, and says what it means that a computation has run out
of time.
-/

namespace Vimlet

variable {σ α β : Type}

/-- How a computation in a session ended. -/
abbrev Ending (σ α : Type) := EStateM.Result Stop (Session σ) α

/-- The computation stopped because no time was left. -/
def Stop.IsTimeOut : Stop → Prop
  | .fault (.timeOut _) => True
  | _ => False

def TimedOut : Ending σ α → Prop
  | .ok _ _ => False
  | .error stop _ => stop.IsTimeOut

@[simp]
theorem not_timedOut_ok (value : α) (session : Session σ) :
    ¬TimedOut (.ok value session : Ending σ α) := id

/-- The session that a computation leaves. -/
def left : Ending σ α → Session σ
  | .ok _ session => session
  | .error _ session => session

def onLeft (change : Session σ → Session σ) : Ending σ α → Ending σ α
  | .ok value session => .ok value (change session)
  | .error stop session => .error stop (change session)

@[simp]
theorem left_onLeft (change : Session σ → Session σ) (ending : Ending σ α) :
    left (onLeft change ending) = change (left ending) := by
  cases ending <;> rfl

@[simp]
theorem timedOut_onLeft {change : Session σ → Session σ} {ending : Ending σ α} :
    TimedOut (onLeft change ending) ↔ TimedOut ending := by
  cases ending <;> rfl

def Session.withPatience (session : Session σ) (patience : Nat) : Session σ :=
  { session with patience }

@[simp]
theorem Session.withPatience_patience (session : Session σ) (patience : Nat) :
    (session.withPatience patience).patience = patience := rfl

@[simp]
theorem Session.withPatience_withPatience (session : Session σ) (before patience : Nat) :
    (session.withPatience before).withPatience patience = session.withPatience patience := rfl

namespace Run

section Sequence

-- also for computations on the heap alone
variable {state : Type} {act : EStateM Stop state α} {next : α → EStateM Stop state β}
  {session after : state}

theorem bind_ok {value} (first : act session = .ok value after) :
    (act >>= next) session = next value after := by
  simp only [bind, EStateM.bind, first]

theorem bind_error {stop} (first : act session = .error stop after) :
    (act >>= next) session = .error stop after := by
  simp only [bind, EStateM.bind, first]

/-- A sequence gives a value exactly if both parts do. -/
theorem bind_eq_ok {value} :
    (act >>= next) session = .ok value after ↔
      ∃ middle between, act session = .ok middle between ∧
        next middle between = .ok value after := by
  constructor
  · intro whole
    cases first : act session with
    | ok middle between => exact ⟨middle, between, rfl, by rwa [bind_ok first] at whole⟩
    | error stop between => rw [bind_error first] at whole; cases whole
  · rintro ⟨middle, between, first, second⟩
    rw [bind_ok first, second]

theorem get_bind {inspect : state → EStateM Stop state β} (session : state) :
    (get >>= inspect) session = inspect session session := rfl

theorem bind_congr_ok {other : α → EStateM Stop state β}
    (same : ∀ value after, act session = .ok value after → next value after = other value after) :
    (act >>= next) session = (act >>= other) session := by
  cases ended : act session with
  | ok value after => rw [bind_ok ended, bind_ok ended, same value after ended]
  | error stop after => rw [bind_error ended, bind_error ended]

end Sequence

variable {act : Run σ α} {next : α → Run σ β} {session after : Session σ}

theorem attempt_ok {value} (ended : act session = .ok value after) :
    attempt act session = .ok (.ok value) after := by
  simp only [attempt, ended]

theorem attempt_error {stop} (ended : act session = .error stop after) :
    attempt act session = .ok (.error stop) after := by
  simp only [attempt, ended]

/-- What follows an attempt, as something that is made of the ending. -/
theorem attempt_bind {next : Except Stop α → Run σ β} {made : Ending σ α → Ending σ β}
    (ok : ∀ value after, next (.ok value) after = made (.ok value after))
    (error : ∀ stop after, next (.error stop) after = made (.error stop after)) :
    (attempt act >>= next) session = made (act session) := by
  cases ended : act session with
  | ok value after => rw [bind_ok (attempt_ok ended), ok]
  | error stop after => rw [bind_ok (attempt_error ended), error]

theorem ensure_eq (cleanup : Session σ → Session σ) :
    ensure cleanup act session = onLeft cleanup (act session) := by
  unfold ensure
  cases act session <;> rfl

/-- Inside of a run, a computation that is enclosed counts as another run while it lasts. -/
theorem enclosed_eq (inside : session.runs ≠ 0) :
    enclosed act session =
      onLeft (fun after => { after with runs := session.runs })
        (act { session with runs := session.runs + 1 }) := by
  have begin_eq : session.begin = { session with runs := session.runs + 1 } := by
    simp only [Session.begin, if_neg inside]
  unfold enclosed
  rw [begin_eq]
  cases act { session with runs := session.runs + 1 } with
  | ok value after => rfl
  | error stop after =>
    cases stop with
    | tooDeep => simp only [if_neg inside, onLeft]
    | fault | returning | breaking | continuing | internal => rfl

/-- A statement finds the time used up, or there is time left for it. -/
theorem checkPatience_cases (session : Session σ) :
    (session.patience = 0 ∧
        checkPatience session =
          .error (.fault (.timeOut session.timeout)) (session.withPatience 0)) ∨
      ∃ left, session.patience = left + 1 ∧
        checkPatience session = .ok () (session.withPatience left) := by
  cases patience_eq : session.patience with
  | zero =>
    left
    refine ⟨rfl, ?_⟩
    rw [show session.withPatience 0 = session by rw [← patience_eq]; rfl]
    simp only [checkPatience, get_bind, patience_eq]
    rfl
  | succ left =>
    right
    refine ⟨left, rfl, ?_⟩
    simp only [checkPatience, get_bind, patience_eq]
    rfl

/-- Spends time on a number of statements. -/
def spend : Nat → Run σ Unit
  | 0 => pure ()
  | count + 1 => do
    checkPatience
    spend count

theorem spend_one : (spend 1 : Run σ Unit) = checkPatience := bind_pure checkPatience

theorem spend_add (first second : Nat) :
    (spend (first + second) : Run σ Unit) = (do spend first; spend second) := by
  induction first with
  | zero => simp [spend]
  | succ first ih => rw [Nat.add_right_comm, spend, spend, ih, bind_assoc]

/-- All the time that statements take is spent, or all the time there was. -/
theorem spend_eq (count : Nat) (session : Session σ) :
    spend count session =
      if count ≤ session.patience then .ok () (session.withPatience (session.patience - count))
      else .error (.fault (.timeOut session.timeout)) (session.withPatience 0) := by
  induction count generalizing session with
  | zero => rfl
  | succ count ih =>
    obtain ⟨none_left, late⟩ | ⟨left, patience_eq, ready⟩ := checkPatience_cases session
    · rw [spend, bind_error late, if_neg (by omega)]
    · rw [spend, bind_ok ready, ih, Session.withPatience_patience, patience_eq]
      simp only [Nat.add_le_add_iff_right, Nat.add_sub_add_right, Session.withPatience_withPatience]
      rfl

end Run

end Vimlet
