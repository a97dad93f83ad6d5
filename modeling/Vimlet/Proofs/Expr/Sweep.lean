import Vimlet.Expr.Reduce
import Vimlet.Proofs.Session.Ending

/-!
# Passes over tokens

A property of tokens and session that each application of a rule keeps is kept by a sweep of the
rule, by a cycle of passes, and so by the whole reduction. A rule that stops may promise something
as well.
-/

namespace Vimlet

variable {σ α β : Type}

/-- The computation gave a value with one property, or it stopped with another. -/
def Meets (good : α → Session σ → Prop) (bad : Stop → Session σ → Prop) : Ending σ α → Prop
  | .ok value session => good value session
  | .error stop session => bad stop session

theorem Run.bind_meets {act} {next : α → Run σ β} {session} {middle : α → Session σ → Prop}
    {good : β → Session σ → Prop} {bad : Stop → Session σ → Prop}
    (first : Meets middle bad (act session))
    (second : ∀ value after, middle value after → Meets good bad (next value after)) :
    Meets good bad ((act >>= next) session) := by
  cases ended : act session with
  | ok value after =>
    rw [ended] at first
    rw [bind_ok ended]
    exact second value after first
  | error stop after =>
    rw [ended] at first
    rw [bind_error ended]
    exact first

namespace Reduce

/-- The tokens after a rule was tried at their start. -/
def replaced (tokens : List Token) : Option (Value × List Token) → List Token
  | none => tokens
  | some (value, rest) => .val value :: rest

/-! ### Rules that may promise something when they stop -/

/-- A rule keeps a property of all tokens and of the session, or it stops with another property. -/
def Rule.Maintains (bad : Stop → Session σ → Prop) (holds : List Token → Session σ → Prop)
    (rule : Rule σ) : Prop :=
  ∀ before tokens session, holds (before.reverse ++ tokens) session →
    Meets (fun found => holds (before.reverse ++ replaced tokens found)) bad
      (rule before tokens session)

/-- A pass keeps a property of the tokens and of the session, or it stops with another property. -/
def Pass.Maintains (bad : Stop → Session σ → Prop) (holds : List Token → Session σ → Prop)
    (pass : Pass σ) : Prop :=
  ∀ tokens session, holds tokens session →
    Meets (fun outcome => holds outcome.1) bad (pass tokens session)

section Maintains

variable {bad : Stop → Session σ → Prop} {holds : List Token → Session σ → Prop}

theorem sweepWithin_maintains {rule} (maintains : rule.Maintains bad holds) (sticky : Bool)
    (fuel : Nat) (before rest : List Token) (changed : Bool) (session : Session σ)
    (start : holds (before.reverse ++ rest) session) :
    Meets (fun outcome => holds outcome.1) bad
      (sweepWithin sticky rule fuel before rest changed session) := by
  induction fuel generalizing before rest changed session with
  | zero => exact start
  | succ fuel ih =>
    cases rest with
    | nil =>
      rw [List.append_nil] at start
      exact start
    | cons token rest =>
      refine Run.bind_meets (maintains before (token :: rest) session start) ?_
      rintro (_ | ⟨value, after⟩) between kept
      · exact ih (token :: before) rest changed between (by simpa [replaced] using kept)
      · cases sticky with
        | true => exact ih before (.val value :: after) true between kept
        | false =>
          exact ih (.val value :: before) after true between (by simpa [replaced] using kept)

theorem sweep_maintains {rule} (maintains : rule.Maintains bad holds) (sticky : Bool) :
    Pass.Maintains bad holds (sweep sticky rule) := fun tokens session start =>
  sweepWithin_maintains maintains sticky tokens.length [] tokens false session start

theorem unaryFrom_maintains
    (maintains : ∀ before symbol operand after session,
      symbol.isUnary = true → startsOperand before = true → continuesOperand after = false →
      holds (before.reverse ++ .op symbol :: .val operand :: after) session →
      Meets (fun value => holds (before.reverse ++ .val value :: after)) bad
        (applyUnary symbol operand session))
    (before tokens : List Token) (session : Session σ)
    (start : holds (before.reverse ++ tokens) session) :
    Meets (fun outcome => holds (before.reverse ++ outcome.1)) bad
      (unaryFrom before tokens session) := by
  induction tokens generalizing before session with
  | nil => exact start
  | cons token rest ih =>
    refine Run.bind_meets (ih (token :: before) session (by simpa using start)) ?_
    rintro ⟨later, changed⟩ between kept
    rw [List.reverse_cons, List.append_assoc, List.singleton_append] at kept
    dsimp only
    split
    · split
      · rename_i symbol operand after applies
        simp only [Bool.and_eq_true, Bool.not_eq_true'] at applies
        refine Run.bind_meets (maintains before symbol operand after between applies.1.1
          applies.1.2 applies.2 kept) ?_
        exact fun value after kept => kept
      · exact kept
    · exact kept

theorem runPasses_maintains {passes} (maintain : ∀ pass ∈ passes, pass.Maintains bad holds) :
    Pass.Maintains bad holds (runPasses passes) := by
  induction passes with
  | nil => exact fun tokens session start => start
  | cons pass passes ih =>
    intro tokens session start
    obtain ⟨first, others⟩ := List.forall_mem_cons.mp maintain
    refine Run.bind_meets (first tokens session start) fun outcome between kept => ?_
    exact Run.bind_meets (ih others outcome.1 between kept) fun _ _ kept => kept

section Reduction

variable (stuck : ∀ tokens session stop, holds tokens session → bad stop session)
include stuck

theorem reduceWithin_singleton_maintains (engine : Engine σ) (text : String) (fuel : Nat)
    (token : Token) (session : Session σ) (start : holds [token] session) :
    Meets (fun value => holds [.val value]) bad
      (reduceWithin engine text fuel [token] session) := by
  cases token with
  | val value => cases fuel <;> exact start
  | op symbol | var name | call name => cases fuel <;> exact stuck _ _ _ start

/-- The value that is left at the end has the property that each pass keeps. -/
theorem reduceWithin_maintains {engine}
    (maintain : ∀ pass ∈ passes engine, pass.Maintains bad holds) (text : String) (fuel : Nat)
    (tokens : List Token) (session : Session σ) (start : holds tokens session) :
    Meets (fun value => holds [.val value]) bad
      (reduceWithin engine text fuel tokens session) := by
  induction fuel generalizing tokens session with
  | zero =>
    rcases tokens with _ | ⟨token, _ | ⟨second, rest⟩⟩
    · exact stuck _ _ _ start
    · exact reduceWithin_singleton_maintains stuck engine text 0 token session start
    · simp only [reduceWithin]
      exact stuck _ _ _ start
  | succ fuel ih =>
    rcases tokens with _ | ⟨token, _ | ⟨second, rest⟩⟩
    · exact stuck _ _ _ start
    · exact reduceWithin_singleton_maintains stuck engine text (fuel + 1) token session start
    · simp only [reduceWithin]
      refine Run.bind_meets (runPasses_maintains maintain _ session start) ?_
      rintro ⟨later, changed⟩ between kept
      cases changed with
      | true => exact ih later between kept
      | false => exact stuck _ _ _ kept

end Reduction

end Maintains

end Reduce

end Vimlet
