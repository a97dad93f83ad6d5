import Vimlet.Proofs.Expr.Shortening

/-!
# The cycles of a reduction

The reduction runs cycles of passes as long as several tokens are left and a cycle has changed them.
A cycle that changes tokens leaves fewer of them, so that there are no more cycles than tokens. It
has no way to fail but those of the calls and operators of the expression.
-/

namespace Vimlet

variable {σ : Type}
variable {session after : Session σ} {tokens : List Token}

/-- A call, a subscript or an operator; literals and parentheses are none. -/
def Action.IsOperation : Action → Prop
  | .call .. | .apply .. | .index .. | .slice .. | .unary .. | .binary .. => True
  | .list _ | .object _ | .group _ => False

namespace Reduce

variable (engine : Engine σ) (text : String)

/-- An operation for which tokens called has stopped. -/
def OperationStops (stop : Stop) (after : Session σ) : Prop :=
  ∃ before tokens action rest session, Contraction before tokens action rest ∧
    action.IsOperation ∧ action.perform engine session = .error stop after

theorem isOperation_of_error {action : Action} {stop}
    (stopped : action.perform engine session = .error stop after) : action.IsOperation := by
  cases action with
  | list | object | group => cases stopped
  | call | apply | index | slice | unary | binary => trivial

/-- A pass keeps what holds of all tokens with a value among them, or an operation stops. -/
theorem passes_maintain_or_stop (holds : List Token → Prop)
    (kept : ∀ before value after, holds (before ++ .val value :: after)) :
    ∀ pass ∈ passes engine,
      pass.Maintains (OperationStops engine) fun tokens _ => holds tokens := by
  refine passes_maintain fun before tokens action after session contraction _ => ?_
  cases done : action.perform engine session with
  | ok value later => exact kept before.reverse value after
  | error stop later =>
    exact ⟨before, tokens, action, after, session, contraction, isOperation_of_error engine done,
      done⟩

/-- Tokens are reduced in a number of cycles; a cycle that stops counts as one. -/
inductive Cycles : Nat → List Token → Session σ → Ending σ Value → Prop where
  | empty (session : Session σ) : Cycles 0 [] session (.error .internal session)
  | value (value : Value) (session : Session σ) : Cycles 0 [.val value] session (.ok value session)
  | other {token} (no_value : ∀ value, token ≠ .val value) (session : Session σ) :
      Cycles 0 [token] session (.error (.fault (.invalidExpression text)) session)
  | stopped {tokens : List Token} {session after stop} (several : 1 < tokens.length)
      (cycle : runPasses (passes engine) tokens session = .error stop after) :
      Cycles 1 tokens session (.error stop after)
  | stuck {tokens : List Token} {session after} (several : 1 < tokens.length)
      (cycle : runPasses (passes engine) tokens session = .ok (tokens, false) after) :
      Cycles 1 tokens session (.error (.fault (.invalidExpression text)) after)
  | again {tokens later session between count ending} (several : 1 < tokens.length)
      (cycle : runPasses (passes engine) tokens session = .ok (later, true) between)
      (rest : Cycles count later between ending) : Cycles (count + 1) tokens session ending

/-- With a step for each token the loop is never cut short. -/
theorem reduceWithin_cycles {fuel} (enough : tokens.length ≤ fuel) (session : Session σ) :
    ∃ count ≤ tokens.length,
      Cycles engine text count tokens session (reduceWithin engine text fuel tokens session) := by
  induction fuel generalizing tokens session with
  | zero =>
    obtain rfl := List.length_eq_zero_iff.mp (Nat.le_zero.mp enough)
    exact ⟨0, le_rfl, .empty session⟩
  | succ fuel ih =>
    rcases tokens with _ | ⟨token, _ | ⟨second, rest⟩⟩
    · exact ⟨0, le_rfl, .empty session⟩
    · refine ⟨0, Nat.zero_le _, ?_⟩
      cases token with
      | val value => exact .value value session
      | op | var | call => exact .other (by rintro _ ⟨⟩) session
    · have several : 1 < (token :: second :: rest).length := by simp
      rw [reduceWithin]
      · cases cycle : runPasses (passes engine) (token :: second :: rest) session with
        | error stop after =>
          rw [Run.bind_error cycle]
          exact ⟨1, several.le, .stopped several cycle⟩
        | ok outcome between =>
          rw [Run.bind_ok cycle]
          obtain ⟨later, changed⟩ := outcome
          obtain ⟨rfl, rfl⟩ | ⟨rfl, shorter⟩ :=
            runPasses_shortens (passes_shorten engine) _ _ _ _ cycle
          · exact ⟨1, several.le, .stuck several cycle⟩
          · -- there are fewer tokens for the fuel that is left
            obtain ⟨count, few, cycles⟩ :=
              ih (Nat.le_of_lt_succ (shorter.trans_le enough)) between
            exact ⟨count + 1, few.trans_lt shorter, .again several cycle cycles⟩
      all_goals simp

/-- The stop of an operation, or of an expression that is none. -/
def StopsReduction (stop : Stop) (after : Session σ) : Prop :=
  stop = .fault (.invalidExpression text) ∨ OperationStops engine stop after

theorem Cycles.ends {count ending} (cycles : Cycles engine text count tokens session ending) :
    Meets (fun _ _ => True)
      (fun stop after => tokens = [] ∧ stop = .internal ∨ StopsReduction engine text stop after)
      ending := by
  have cycle_keeps := runPasses_maintains (passes_maintain_or_stop engine (· ≠ [])
    fun _ _ _ => by simp)
  have ne_nil {tokens : List Token} (several : 1 < tokens.length) : tokens ≠ [] :=
    List.ne_nil_of_length_pos (Nat.zero_lt_of_lt several)
  induction cycles with
  | empty => exact .inl ⟨rfl, rfl⟩
  | value => trivial
  | other | stuck => exact .inr (.inl rfl)
  | @stopped tokens session _ _ several cycle =>
    have stops := cycle_keeps tokens session (ne_nil several)
    rw [cycle] at stops
    exact .inr (.inr stops)
  | @again tokens later session _ _ ending several cycle _ ih =>
    have left := cycle_keeps tokens session (ne_nil several)
    rw [cycle] at left
    cases ending with
    | ok => trivial
    | error => exact .inr (ih.resolve_left fun empty => left empty.1)

/-- A reduction without a value ends as an expression that is none or with the stop of an operation.
-/
theorem reduce_ends (tokens : List Token) (session : Session σ) :
    Meets (fun _ _ => True)
      (fun stop after => tokens = [] ∧ stop = .internal ∨ StopsReduction engine text stop after)
      (reduce engine text tokens session) := by
  obtain ⟨_, _, cycles⟩ := reduceWithin_cycles engine text (le_refl tokens.length) session
  exact cycles.ends engine text

theorem substitute_ne_nil {host replaced}
    (done : substitute host tokens session = .ok replaced after) (ne : tokens ≠ []) :
    replaced ≠ [] := by
  unfold substitute at done
  split at done
  · obtain ⟨_, _, _, done⟩ := Run.bind_eq_ok.mp done
    obtain ⟨_, _, _, done⟩ := Run.bind_eq_ok.mp done
    obtain ⟨_, _, _, ⟨⟩⟩ := Run.bind_eq_ok.mp done
    simp
  · obtain ⟨_, _, _, done⟩ := Run.bind_eq_ok.mp done
    obtain ⟨_, _, _, ⟨⟩⟩ := Run.bind_eq_ok.mp done
    simp
  · obtain ⟨_, _, _, ⟨⟩⟩ := Run.bind_eq_ok.mp done
    simp
  · exact absurd rfl ne

/-- A reduction ends. Each pass leaves the tokens as they are and says so, or it shortens them and
says so, unless an operation stops. So a reduction runs no more cycles than it has tokens, and then
it has a value, or the expression is none, or an operation has stopped; only the empty list, which
no expression gives, has no token to look at, and ends as an internal error. -/
theorem reduction_ends (tokens : List Token) (session : Session σ) :
    (∀ pass ∈ passes engine, Meets
        (fun outcome _ => outcome = (tokens, false) ∨
          outcome.2 = true ∧ outcome.1.length < tokens.length)
        (OperationStops engine) (pass tokens session)) ∧
      (∃ count ≤ tokens.length,
        Cycles engine text count tokens session (reduce engine text tokens session)) ∧
      Meets (fun _ _ => True)
        (fun stop after => tokens = [] ∧ stop = .internal ∨ StopsReduction engine text stop after)
        (reduce engine text tokens session) ∧
      ∀ (host : Host σ) (first : Token) (rest : List Token) (start : Session σ),
        substitute host (markCalls (first :: rest)) start ≠ .ok [] session := by
  refine ⟨fun pass mem => ?_, reduceWithin_cycles engine text (le_refl tokens.length) session,
    reduce_ends engine text tokens session, fun host first rest start done => ?_⟩
  · have stops := passes_maintain_or_stop engine (fun _ => True) (fun _ _ _ => trivial) pass mem
      tokens session trivial
    cases done : pass tokens session with
    | error stop after =>
      rw [done] at stops
      exact stops
    | ok outcome after =>
      obtain ⟨unchanged, same⟩ | shorter := passes_shorten engine pass mem _ _ _ _ done
      · exact .inl (Prod.ext same unchanged)
      · exact .inr shorter
  · refine substitute_ne_nil done ?_ rfl
    unfold markCalls
    split <;> simp_all

end Reduce

end Vimlet
