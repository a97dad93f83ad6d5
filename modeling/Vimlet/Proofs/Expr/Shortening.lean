import Vimlet.Proofs.Expr.Redex

/-!
# Passes that change the tokens shorten them

A rule leaves the tokens at its place alone or replaces at least two of them by one value. So a pass
that reports a change has shortened the tokens, and one that reports none has left them as they
were.
-/

namespace Vimlet.Reduce

open List

variable {σ : Type}
variable {tokens after before : List Token}
variable {engine : Engine σ} {rule : Rule σ} {session : Session σ} {outcome : Outcome} {fuel : Nat}
  {rest : List Token}

/-! ### Contractions -/

theorem splitAt?_length {symbol inside} (found : splitAt? symbol tokens = some (inside, after)) :
    after.length < tokens.length := by
  rw [splitAt?_eq found]
  simp only [length_append, length_cons]
  omega

theorem shorter_of_contraction {action} (contraction : Contraction before tokens action after) :
    after.length + 1 < tokens.length := by
  cases contraction with
  | call _ _ read | apply _ read =>
    have shorter := arguments?_length read
    simp only [length_cons]
    omega
  | list _ split | object _ split => exact Nat.succ_lt_succ (splitAt?_length split)
  | slice =>
    simp only [length_cons, length_append]
    omega
  | index | group | unary | binary => simp

theorem Rule.Contracts.found_cases (contracts : rule.Contracts engine) {between found}
    (done : rule before tokens session = .ok found between) :
    (found = none ∧ rule before tokens = pure none) ∨
      ∃ value after, found = some (value, after) ∧ after.length + 1 < tokens.length := by
  obtain idle | ⟨action, after, contraction, applies⟩ := contracts before tokens
  · rw [idle] at done
    cases done
    exact .inl ⟨rfl, idle⟩
  · rw [applies] at done
    obtain ⟨value, _, _, ⟨⟩⟩ := Run.bind_eq_ok.mp done
    exact .inr ⟨value, after, rfl, shorter_of_contraction contraction⟩

/-! ### Passes -/

/-- A pass reports no change and leaves the tokens as they were, or reports one and shortens them.
-/
def Pass.Shortens (pass : Pass σ) : Prop :=
  ∀ tokens session outcome after, pass tokens session = .ok outcome after →
    (outcome.2 = false ∧ outcome.1 = tokens) ∨
      (outcome.2 = true ∧ outcome.1.length < tokens.length)

section Sweep

variable (contracts : rule.Contracts engine) {sticky : Bool}
include contracts
variable {after : Session σ}

theorem sweepWithin_changed {before}
    (done : sweepWithin sticky rule fuel before rest true session = .ok outcome after) :
    outcome.2 = true ∧ outcome.1.length ≤ before.length + rest.length := by
  induction fuel generalizing before rest session with
  | zero => cases done; simp
  | succ fuel ih =>
    cases rest with
    | nil => cases done; simp
    | cons token rest =>
      obtain ⟨found, between, tried, continued⟩ := Run.bind_eq_ok.mp done
      obtain ⟨rfl, _⟩ | ⟨value, remaining, rfl, shorter⟩ := contracts.found_cases tried
      · obtain ⟨changed, le⟩ := ih continued
        simp only [length_cons] at le ⊢
        exact ⟨changed, by omega⟩
      · cases sticky with
        | true | false =>
          obtain ⟨changed, le⟩ := ih continued
          simp only [length_cons] at le shorter ⊢
          exact ⟨changed, by omega⟩

/-- A sweep that reports no change has found no place where its rule applies. -/
theorem sweepWithin_cases {before} (enough : rest.length ≤ fuel)
    (done : sweepWithin sticky rule fuel before rest false session = .ok outcome after) :
    (outcome = (before.reverse ++ rest, false) ∧
        ∀ front back, rest = front ++ back → back ≠ [] →
          rule (front.reverse ++ before) back = pure none) ∨
      (outcome.2 = true ∧ outcome.1.length < before.length + rest.length) := by
  induction fuel generalizing before rest session with
  | zero =>
    obtain rfl := length_eq_zero_iff.mp (Nat.le_zero.mp enough)
    cases done
    refine .inl ⟨rfl, fun front back split ne => ?_⟩
    exact absurd (append_eq_nil_iff.mp split.symm).2 ne
  | succ fuel ih =>
    cases rest with
    | nil =>
      cases done
      refine .inl ⟨by simp, fun front back split ne => ?_⟩
      exact absurd (append_eq_nil_iff.mp split.symm).2 ne
    | cons token rest =>
      obtain ⟨found, between, tried, continued⟩ := Run.bind_eq_ok.mp done
      obtain ⟨rfl, idle⟩ | ⟨value, remaining, rfl, shorter⟩ := contracts.found_cases tried
      · obtain ⟨rfl, idle_later⟩ | ⟨changed, lt⟩ :=
          ih (Nat.le_of_succ_le_succ enough) continued
        · refine .inl ⟨by simp, fun front back split ne => ?_⟩
          cases front with
          | nil =>
            obtain rfl : token :: rest = back := split
            exact idle
          | cons head front =>
            obtain ⟨rfl, rest_eq⟩ := List.cons.inj split
            simpa using idle_later front back rest_eq ne
        · simp only [length_cons] at lt ⊢
          exact .inr ⟨changed, by omega⟩
      · right
        cases sticky with
        | true | false =>
          obtain ⟨changed, le⟩ := sweepWithin_changed contracts continued
          simp only [length_cons] at le shorter ⊢
          exact ⟨changed, by omega⟩

theorem sweep_shortens : Pass.Shortens (sweep sticky rule) := by
  intro tokens session outcome after done
  obtain ⟨rfl, _⟩ | ⟨changed, lt⟩ := sweepWithin_cases contracts le_rfl done
  · exact .inl ⟨rfl, rfl⟩
  · exact .inr ⟨changed, by simpa using lt⟩

theorem sweep_idle {tokens} (done : sweep sticky rule tokens session = .ok outcome after)
    (unchanged : outcome.2 = false) (before back : List Token)
    (split : tokens = before.reverse ++ back) (ne : back ≠ []) : rule before back = pure none := by
  obtain ⟨_, idle⟩ | ⟨changed, _⟩ := sweepWithin_cases contracts le_rfl done
  · simpa using idle before.reverse back split ne
  · simp [unchanged] at changed

end Sweep

variable {tokens : List Token} {after : Session σ}

/-- The unary pass shortens the tokens, or no unary operator can be applied. -/
theorem unaryFrom_cases {before} (done : unaryFrom before tokens session = .ok outcome after) :
    (outcome = (tokens, false) ∧
        ∀ front symbol operand back, tokens = front ++ .op symbol :: .val operand :: back →
          symbol.isUnary = true → startsOperand (front.reverse ++ before) = true →
          continuesOperand back = true) ∨
      (outcome.2 = true ∧ outcome.1.length < tokens.length) := by
  induction tokens generalizing before session after outcome with
  | nil =>
    cases done
    exact .inl ⟨rfl, fun front symbol operand back split => by simp at split⟩
  | cons token rest ih =>
    obtain ⟨⟨later, changed⟩, between, rest_done, continued⟩ := Run.bind_eq_ok.mp done
    have rest_cases := ih rest_done
    have passed_by (same : outcome = (token :: later, changed))
        (taken : ∀ symbol operand back, token = .op symbol → later = .val operand :: back →
          symbol.isUnary = true → startsOperand before = true → continuesOperand back = true) :
        (outcome = (token :: rest, false) ∧
            ∀ front symbol operand back,
              token :: rest = front ++ .op symbol :: .val operand :: back →
              symbol.isUnary = true → startsOperand (front.reverse ++ before) = true →
              continuesOperand back = true) ∨
          (outcome.2 = true ∧ outcome.1.length < (token :: rest).length) := by
      subst same
      obtain ⟨same, idle⟩ | ⟨was_changed, lt⟩ := rest_cases
      · cases same
        refine .inl ⟨rfl, fun front symbol operand back split isUnary starts => ?_⟩
        cases front with
        | nil =>
          obtain ⟨token_eq, rest_eq⟩ := List.cons.inj split
          exact taken symbol operand back token_eq rest_eq isUnary starts
        | cons head front =>
          obtain ⟨rfl, rest_eq⟩ := List.cons.inj split
          exact idle front symbol operand back rest_eq isUnary (by simpa using starts)
      · exact .inr ⟨was_changed, Nat.succ_lt_succ lt⟩
    dsimp only at continued
    split at continued
    · rename_i symbol operand back
      split at continued
      · obtain ⟨value, _, _, ⟨⟩⟩ := Run.bind_eq_ok.mp continued
        have le : (Token.val operand :: back).length ≤ rest.length := by
          obtain ⟨same, _⟩ | ⟨_, lt⟩ := rest_cases
          · cases same
            exact le_rfl
          · exact lt.le
        exact .inr ⟨rfl, Nat.lt_succ_of_le le⟩
      · rename_i not_applied
        cases continued
        refine passed_by rfl fun other operand back token_eq later_eq isUnary starts => ?_
        cases token_eq
        cases later_eq
        simpa [isUnary, starts] using not_applied
    · rename_i not_operator
      cases continued
      exact passed_by rfl fun symbol operand back token_eq later_eq =>
        (not_operator symbol operand back token_eq later_eq).elim

theorem runPasses_shortens {passes : List (Pass σ)} (shorten : ∀ pass ∈ passes, pass.Shortens) :
    Pass.Shortens (runPasses passes) := by
  induction passes with
  | nil =>
    intro tokens session outcome after done
    cases done
    exact .inl ⟨rfl, rfl⟩
  | cons pass passes ih =>
    intro tokens session outcome after done
    obtain ⟨first_shortens, others_shorten⟩ := forall_mem_cons.mp shorten
    obtain ⟨⟨middle, changed⟩, between, first_done, rest_done⟩ := Run.bind_eq_ok.mp done
    obtain ⟨⟨last, changed_later⟩, _, others_done, ⟨⟩⟩ := Run.bind_eq_ok.mp rest_done
    have first := first_shortens _ _ _ _ first_done
    have others := ih others_shorten _ _ _ _ others_done
    dsimp only at first others ⊢
    obtain ⟨rfl, rfl⟩ | ⟨rfl, first_shorter⟩ := first
    · simpa using others
    · obtain ⟨rfl, rfl⟩ | ⟨rfl, others_shorter⟩ := others
      · exact .inr ⟨rfl, first_shorter⟩
      · exact .inr ⟨rfl, others_shorter.trans first_shorter⟩

/-- If a cycle reports no change then none of its passes does. -/
theorem runPasses_unchanged {passes} (shorten : ∀ pass ∈ passes, pass.Shortens)
    (done : runPasses passes tokens session = .ok outcome after) (unchanged : outcome.2 = false) :
    ∀ pass ∈ passes, ∃ before result later, pass tokens before = .ok result later ∧
      result.2 = false := by
  induction passes generalizing session outcome with
  | nil => simp
  | cons pass passes ih =>
    obtain ⟨first_shortens, others_shorten⟩ := forall_mem_cons.mp shorten
    obtain ⟨⟨middle, changed⟩, between, first_done, rest_done⟩ := Run.bind_eq_ok.mp done
    obtain ⟨⟨last, changed_later⟩, _, others_done, ⟨⟩⟩ := Run.bind_eq_ok.mp rest_done
    obtain ⟨rfl, rfl⟩ : changed = false ∧ changed_later = false := by simpa using unchanged
    obtain ⟨_, rfl⟩ | ⟨changed, _⟩ := first_shortens _ _ _ _ first_done
    · exact forall_mem_cons.mpr ⟨⟨session, _, between, first_done, rfl⟩,
        ih others_shorten others_done rfl⟩
    · cases changed

/-! ### The passes of a cycle -/

theorem unaryFrom_shortens : Pass.Shortens (unaryFrom [] : Pass σ) := by
  intro tokens session outcome after done
  obtain ⟨rfl, _⟩ | shorter := unaryFrom_cases done
  · exact .inl ⟨rfl, rfl⟩
  · exact .inr shorter

theorem passes_shorten (engine : Engine σ) : ∀ pass ∈ passes engine, pass.Shortens :=
  forall_passes (fun _ _ contracts => sweep_shortens contracts) unaryFrom_shortens

theorem sweptRules_contract (engine : Engine σ) : ∀ rule ∈ sweptRules, rule.Contracts engine := by
  simp only [sweptRules, forall_mem_cons]
  exact ⟨listRule_contracts.contracts engine, indexRule_contracts.contracts engine,
    objectRule_contracts.contracts engine, parenRule_contracts.contracts engine,
    (binaryRule_contracts 4).contracts engine, (binaryRule_contracts 3).contracts engine,
    (binaryRule_contracts 2).contracts engine, (binaryRule_contracts 1).contracts engine,
    forall_mem_nil _⟩

theorem sweep_mem_passes (engine : Engine σ) :
    ∀ rule ∈ (sweptRules : List (Rule σ)), ∃ sticky, sweep sticky rule ∈ passes engine := by
  simp only [sweptRules, forall_mem_cons]
  exact ⟨⟨false, by simp [passes]⟩, ⟨true, by simp [passes]⟩, ⟨false, by simp [passes]⟩,
    ⟨false, by simp [passes]⟩, ⟨true, by simp [passes]⟩, ⟨true, by simp [passes]⟩,
    ⟨true, by simp [passes]⟩, ⟨true, by simp [passes]⟩, forall_mem_nil _⟩

/-- A cycle that reports no change has left nothing to do for its rules. -/
theorem idle_of_unchanged (done : runPasses (passes engine) tokens session = .ok outcome after)
    (unchanged : outcome.2 = false) : Idle σ tokens := by
  have quiet := runPasses_unchanged (passes_shorten engine) done unchanged
  constructor
  · intro before back split ne rule mem
    obtain ⟨sticky, pass_mem⟩ := sweep_mem_passes engine rule mem
    obtain ⟨_, _, _, pass_done, same⟩ := quiet _ pass_mem
    exact sweep_idle (sweptRules_contract engine rule mem) pass_done same before back split ne
  · intro before back symbol operand split isUnary starts
    obtain ⟨_, _, _, pass_done, same⟩ := quiet (unaryFrom []) (by simp [passes])
    obtain ⟨_, idle⟩ | ⟨changed, _⟩ := unaryFrom_cases pass_done
    · exact idle before.reverse symbol operand back split isUnary (by simpa using starts)
    · simp [same] at changed

end Vimlet.Reduce
