import Mathlib.Data.List.Forall2
import Vimlet.Proofs.Expr.Sweep

/-!
# What the rules of reduction do

A rule leaves the tokens at its place alone, or it performs an action and puts its value in the
place of the first few tokens. `Contraction` lists which tokens call for which action.
-/

namespace Vimlet

open Reduce

variable {σ : Type}

/-! ### Actions -/

/-- Makes an Object whose keys are the texts of values. -/
def makeObject (entries : List (Value × Value)) : Run σ Value := do
  let heap := (← get).heap
  Run.onHeap (Mem.newObject (.ofList (entries.map fun (key, value) => (heap.text key, value))))

/-- What a rule does to make a value. -/
inductive Action where
  | call (name : String) (args : List Value)
  | apply (function : FuncRef) (args : List Value)
  | list (items : List Value)
  | object (entries : List (Value × Value))
  | index (base key : Value)
  | slice (base first last : Value)
  /-- Takes a value out of its parentheses. -/
  | group (value : Value)
  | unary (symbol : Op) (operand : Value)
  | binary (symbol : Op) (a b : Value)

/-- Performs an action, with calls made by the engine. -/
def Action.perform (engine : Engine σ) : Action → Run σ Value
  | call name args => engine.call name args
  | apply function args => engine.callRef function args
  | list items => Run.onHeap (Mem.newList items)
  | object entries => makeObject entries
  | index base key => Run.onHeap (Mem.index base key)
  | slice base first last => Run.onHeap (Mem.slice base first last)
  | group value => pure value
  | unary symbol operand => applyUnary symbol operand
  | binary symbol a b => applyBinary symbol a b

/-! ### Contractions -/

/-- The tokens of a bound of a slice, which may be missing. -/
def boundTokens : Option Value → List Token
  | none => []
  | some value => [.val value]

/-- Tokens, behind others that are given backwards, call for an action; it replaces all of them but
the last ones. -/
inductive Contraction (before : List Token) : List Token → Action → List Token → Prop where
  | call (name : String) (token : Token) {rest after args}
      (read : arguments? rest = some (args, after)) :
      Contraction before (.call name :: token :: rest) (.call name args) after
  | apply (function : FuncRef) {rest after args} (read : arguments? rest = some (args, after)) :
      Contraction before (.val (.function function) :: .op .leftParen :: rest)
        (.apply function args) after
  | list {rest inside after items} (starts : startsOperand before = true)
      (split : splitAt? .rightBracket rest = some (inside, after))
      (all : (parts inside).mapM item? = some items) :
      Contraction before (.op .leftBracket :: rest) (.list items) after
  | object {rest inside after entries} (starts : startsOperand before = true)
      (split : splitAt? .rightBrace rest = some (inside, after))
      (all : (parts inside).mapM entry? = some entries) :
      Contraction before (.op .leftBrace :: rest) (.object entries) after
  | index (base key : Value) (after : List Token) :
      Contraction before (.val base :: .op .leftBracket :: .val key :: .op .rightBracket :: after)
        (.index base key) after
  | slice (base : Value) (first last : Option Value) (after : List Token) :
      Contraction before
        (.val base :: .op .leftBracket ::
          (boundTokens first ++ .op .colon :: (boundTokens last ++ .op .rightBracket :: after)))
        (.slice base (first.getD .nil) (last.getD .nil)) after
  | group (starts : startsOperand before = true) (value : Value) (after : List Token) :
      Contraction before (.op .leftParen :: .val value :: .op .rightParen :: after) (.group value)
        after
  | unary {symbol} (isUnary : symbol.isUnary = true) (starts : startsOperand before = true)
      (operand : Value) {after} (ends : continuesOperand after = false) :
      Contraction before (.op symbol :: .val operand :: after) (.unary symbol operand) after
  | binary {symbol precedence} (isBinary : symbol.precedence? = some precedence)
      (leftFree : leftIsFree precedence before = true) (a b : Value) {after}
      (rightFree : rightIsFree precedence after = true) :
      Contraction before (.val a :: .op symbol :: .val b :: after) (.binary symbol a b) after

/-- A contraction that starts with a parenthesis does not take the one of a call. -/
theorem Contraction.starts_of_leftParen {before tokens after action}
    (contraction : Contraction before tokens action after)
    (opens : tokens.head? = some (.op .leftParen)) : startsOperand before = true := by
  cases contraction with
  | group starts => exact starts
  | unary _ starts => exact starts
  | call | apply | list | object | index | slice | binary => cases opens

/-! ### Rules -/

/-- A rule leaves the tokens alone or contracts them. -/
def Reduce.Rule.Contracts (engine : Engine σ) (rule : Rule σ) : Prop :=
  ∀ before tokens, rule before tokens = pure none ∨
    ∃ action after, Contraction before tokens action after ∧
      rule before tokens = (do return some (← action.perform engine, after))

/-- Rules, one for each engine, leave tokens alone or contract them with the same action. -/
def Reduce.ContractsAlike (rule : Engine σ → Rule σ) : Prop :=
  ∀ before tokens, (∀ engine, rule engine before tokens = pure none) ∨
    ∃ action after, Contraction before tokens action after ∧
      ∀ engine, rule engine before tokens = (do return some (← action.perform engine, after))

theorem Reduce.ContractsAlike.contracts {rule} (alike : ContractsAlike rule) (engine : Engine σ) :
    (rule engine).Contracts engine := by
  intro before tokens
  obtain idle | ⟨action, after, contraction, applies⟩ := alike before tokens
  · exact .inl (idle engine)
  · exact .inr ⟨action, after, contraction, applies engine⟩

theorem refCallRule_contracts : ContractsAlike (@refCallRule σ) := by
  intro before tokens
  by_cases shape : ∃ ref rest, tokens = .val (.function ref) :: .op .leftParen :: rest
  · obtain ⟨ref, rest, rfl⟩ := shape
    rcases read : arguments? rest with _ | ⟨args, after⟩
    · exact .inl fun _ => by simp only [refCallRule, read]
    · exact .inr ⟨_, after, .apply ref read, fun _ => by simp only [refCallRule, read]; rfl⟩
  · refine .inl fun engine => ?_
    unfold refCallRule
    split
    · exact absurd ⟨_, _, rfl⟩ shape
    · rfl

theorem callRule_contracts : ContractsAlike (@callRule σ) := by
  intro before tokens
  by_cases shape : ∃ name token rest, tokens = .call name :: token :: rest
  · obtain ⟨name, token, rest, rfl⟩ := shape
    rcases read : arguments? rest with _ | ⟨args, after⟩
    · exact .inl fun _ => by simp only [callRule, read]
    · exact .inr ⟨_, after, .call name token read, fun _ => by simp only [callRule, read]; rfl⟩
  · refine .inl fun engine => ?_
    unfold callRule
    split
    · exact absurd ⟨_, _, _, rfl⟩ shape
    · rfl

theorem listRule_contracts : ContractsAlike fun _ : Engine σ => listRule := by
  intro before tokens
  dsimp only [listRule]
  split
  · rename_i rest
    split
    · rename_i starts
      rcases split : splitAt? .rightBracket rest with _ | ⟨inside, after⟩
      · exact .inl fun _ => rfl
      · dsimp only
        rcases all : (parts inside).mapM item? with _ | items
        · exact .inl fun _ => rfl
        · exact .inr ⟨_, after, .list starts split all, fun _ => rfl⟩
    · exact .inl fun _ => rfl
  · exact .inl fun _ => rfl

theorem objectRule_contracts : ContractsAlike fun _ : Engine σ => objectRule := by
  intro before tokens
  dsimp only [objectRule]
  split
  · rename_i rest
    split
    · rename_i starts
      rcases split : splitAt? .rightBrace rest with _ | ⟨inside, after⟩
      · exact .inl fun _ => rfl
      · dsimp only
        rcases all : (parts inside).mapM entry? with _ | entries
        · exact .inl fun _ => rfl
        · exact .inr ⟨_, after, .object starts split all, fun _ => rfl⟩
    · exact .inl fun _ => rfl
  · exact .inl fun _ => rfl

theorem optionalValue_eq {tokens rest bound symbol}
    (read : optionalValue tokens = (bound, .op symbol :: rest)) :
    ∃ found : Option Value, bound = found.getD .nil ∧
      tokens = boundTokens found ++ .op symbol :: rest := by
  unfold optionalValue at read
  split at read
  · cases read
    exact ⟨some bound, rfl, rfl⟩
  · cases read
    exact ⟨none, rfl, rfl⟩

/-- A subscript is a key or a pair of bounds, up to its closing bracket. -/
theorem subscript?_cases {tokens after subscript}
    (read : subscript? tokens = some (subscript, after)) :
    (∃ key, subscript = .key key ∧ tokens = .val key :: .op .rightBracket :: after) ∨
      ∃ first last : Option Value, subscript = .bounds (first.getD .nil) (last.getD .nil) ∧
        tokens =
          boundTokens first ++ .op .colon :: (boundTokens last ++ .op .rightBracket :: after) := by
  unfold subscript? at read
  split at read
  · cases read
    exact .inl ⟨_, rfl, rfl⟩
  · right
    rcases read_first : optionalValue tokens with ⟨lower, rest⟩
    rw [read_first] at read
    dsimp only at read
    split at read
    · rename_i _ middle
      rcases read_last : optionalValue middle with ⟨upper, rest⟩
      rw [read_last] at read
      dsimp only at read
      split at read
      · cases read
        obtain ⟨first, rfl, rfl⟩ := optionalValue_eq read_first
        obtain ⟨last, rfl, rfl⟩ := optionalValue_eq read_last
        exact ⟨first, last, rfl, rfl⟩
      · cases read
    · cases read

theorem indexRule_contracts : ContractsAlike fun _ : Engine σ => indexRule := by
  intro before tokens
  dsimp only [indexRule]
  split
  · rename_i base rest
    rcases read : subscript? rest with _ | ⟨subscript, after⟩
    · exact .inl fun _ => rfl
    · obtain ⟨key, rfl, rfl⟩ | ⟨first, last, rfl, rfl⟩ := subscript?_cases read
      · exact .inr ⟨_, after, .index base key after, fun _ => rfl⟩
      · exact .inr ⟨_, after, .slice base first last after, fun _ => rfl⟩
  · exact .inl fun _ => rfl

theorem parenRule_contracts : ContractsAlike fun _ : Engine σ => parenRule := by
  intro before tokens
  dsimp only [parenRule]
  split
  · rename_i value after
    cases starts : startsOperand before with
    | false => exact .inl fun _ => rfl
    | true => exact .inr ⟨_, after, .group starts value after, fun _ => rfl⟩
  · exact .inl fun _ => rfl

theorem binaryRule_contracts (precedence : Nat) :
    ContractsAlike fun _ : Engine σ => binaryRule precedence := by
  intro before tokens
  dsimp only [binaryRule]
  split
  · rename_i a symbol b after
    split
    · rename_i applies
      simp only [Bool.and_eq_true, beq_iff_eq] at applies
      exact .inr ⟨_, after, .binary applies.1.1 applies.1.2 a b applies.2, fun _ => rfl⟩
    · exact .inl fun _ => rfl
  · exact .inl fun _ => rfl

/-- What relates the sweeps of rules that contract tokens alike, and the unary pass to itself,
relates the passes of two engines. -/
theorem forall₂_passes {engine engine'} {related : Pass σ → Pass σ → Prop}
    (swept : ∀ sticky rule, ContractsAlike rule →
      related (sweep sticky (rule engine)) (sweep sticky (rule engine')))
    (unary : related (unaryFrom []) (unaryFrom [])) :
    List.Forall₂ related (passes engine) (passes engine') := by
  simp only [passes, List.forall₂_cons]
  exact ⟨swept _ _ refCallRule_contracts, swept _ _ callRule_contracts,
    swept _ _ listRule_contracts, swept _ _ indexRule_contracts, swept _ _ objectRule_contracts,
    swept _ _ parenRule_contracts, unary, swept _ _ (binaryRule_contracts 4),
    swept _ _ (binaryRule_contracts 3), swept _ _ (binaryRule_contracts 2),
    swept _ _ (binaryRule_contracts 1), .nil⟩

theorem forall_passes {engine} {holds : Pass σ → Prop}
    (swept : ∀ sticky rule, Rule.Contracts engine rule → holds (sweep sticky rule))
    (unary : holds (unaryFrom [])) : ∀ pass ∈ passes engine, holds pass :=
  List.forall₂_same.mp
    (forall₂_passes (fun sticky _ alike => swept sticky _ (alike.contracts engine)) unary)

/-! ### What contractions keep -/

/-- Every pass keeps what each contraction keeps, or it stops as a contraction does. -/
theorem passes_maintain {engine} {bad : Stop → Session σ → Prop}
    {holds : List Token → Session σ → Prop}
    (contract : ∀ before tokens action after session, Contraction before tokens action after →
      holds (before.reverse ++ tokens) session →
      Meets (fun value => holds (before.reverse ++ .val value :: after)) bad
        (action.perform engine session)) : ∀ pass ∈ passes engine, pass.Maintains bad holds := by
  refine forall_passes (fun sticky rule contracts => ?_) ?_
  · refine sweep_maintains (fun before tokens session start => ?_) sticky
    obtain idle | ⟨action, after, contraction, applies⟩ := contracts before tokens
    · rw [idle]
      exact start
    · rw [applies]
      exact Run.bind_meets (contract before tokens action after session contraction start)
        fun _ _ kept => kept
  · refine unaryFrom_maintains ?_ []
    intro before symbol operand after session isUnary starts ends start
    exact contract before _ _ after session (.unary isUnary starts operand ends) start

end Vimlet
