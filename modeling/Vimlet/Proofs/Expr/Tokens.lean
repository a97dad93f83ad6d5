import Vimlet.Proofs.Expr.Lexing
import Vimlet.Proofs.Expr.Syntax
import Vimlet.Proofs.Interpreter.Congruence

/-!
# The tokens that are reduced

Before tokens are reduced, each name with a parenthesis behind it is marked as a call and names are
replaced by their values, so every call has its parenthesis. The parts of a literal are read between
commas.
-/

namespace Vimlet

open Reduce

variable {σ : Type} {tokens after rest inside : List Token} {symbol : Op} {session : Session σ}
  {text : List Char}

/-- Every call token is followed by its opening parenthesis. -/
def callsOpen : List Token → Bool
  | [] => true
  | .call _ :: .op .leftParen :: rest => callsOpen rest
  | .call _ :: _ => false
  | _ :: rest => callsOpen rest

theorem continuesOperand_of_rightIsFree {precedence} (free : rightIsFree precedence after = true) :
    continuesOperand after = false := by
  cases after with
  | nil => rfl
  | cons token after => cases token <;> simp_all [rightIsFree, continuesOperand]

/-! ### Literals -/

/-- Tokens divided by commas, each division empty or of some form. -/
inductive Divided (form : List Token → Prop) : List Token → Prop where
  | last {part} (part_ok : part = [] ∨ form part) : Divided form part
  | more {part rest} (part_ok : part = [] ∨ form part) (later : Divided form rest) :
      Divided form (part ++ .op .comma :: rest)

theorem divided_partsFrom {form : List Token → Prop} (part tokens : List Token)
    (all : ∀ piece ∈ partsFrom part tokens, form piece) :
    Divided form (part.reverse ++ tokens) := by
  induction tokens generalizing part with
  | nil =>
    rw [List.append_nil]
    cases part with
    | nil => exact .last (.inl rfl)
    | cons => exact .last (.inr (all _ (by simp [partsFrom])))
  | cons token rest ih =>
    by_cases comma : token.isOp .comma = true
    · obtain rfl : token = .op .comma := by
        cases token <;> simp_all [Token.isOp, Token.op?]
      rw [partsFrom, if_pos comma] at all
      cases part with
      | nil => exact .more (.inl rfl) (ih [] all)
      | cons first part =>
        obtain ⟨head, others⟩ := List.forall_mem_cons.mp all
        exact .more (.inr head) (ih [] others)
    · rw [partsFrom, if_neg comma] at all
      simpa using ih (token :: part) all

theorem divided_parts {form : List Token → Prop} (all : ∀ piece ∈ parts tokens, form piece) :
    Divided form tokens :=
  divided_partsFrom [] tokens all

theorem splitAt?_eq (split : splitAt? symbol tokens = some (inside, after)) :
    tokens = inside ++ .op symbol :: after := by
  induction tokens generalizing inside with
  | nil => cases split
  | cons token rest ih =>
    rw [splitAt?] at split
    split at split
    · rename_i found
      cases split
      cases token <;> simp_all [Token.isOp, Token.op?]
    · obtain ⟨⟨inside, rest⟩, split_rest, ⟨⟩⟩ := Option.map_eq_some_iff.mp split
      rw [ih split_rest]
      rfl

theorem argumentsFrom?_length {args} (read : argumentsFrom? tokens = some (args, after)) :
    after.length < tokens.length := by
  fun_induction argumentsFrom? tokens generalizing args after with
  | case1 value rest =>
    cases read
    simp only [List.length_cons]
    omega
  | case2 value rest ih =>
    obtain ⟨⟨values, others⟩, read_rest, ⟨⟩⟩ := Option.map_eq_some_iff.mp read
    have shorter := ih read_rest
    simp only [List.length_cons]
    omega
  | case3 => cases read

theorem arguments?_length {args} (read : arguments? tokens = some (args, after)) :
    after.length < tokens.length := by
  unfold arguments? at read
  split at read
  · cases read
    simp
  · exact argumentsFrom?_length read

/-- The form of the parts of a literal once everything in them is a value. -/
def Element.form : Element → List Token → Prop
  | .item, part => ∃ value, part = [.val value]
  | .entry, part => ∃ key value, part = [.val key, .op .colon, .val value]

theorem isSome_of_mapM {α β : Type} {read : α → Option β} {pieces : List α} {values}
    (all : pieces.mapM read = some values) (piece : α) (mem : piece ∈ pieces) :
    ∃ value, read piece = some value := by
  induction pieces generalizing values with
  | nil => cases mem
  | cons first rest ih =>
    rw [List.mapM_cons] at all
    obtain ⟨value, read_first, all⟩ := Option.bind_eq_some_iff.mp all
    obtain ⟨others, read_rest, _⟩ := Option.bind_eq_some_iff.mp all
    cases mem with
    | head => exact ⟨value, read_first⟩
    | tail _ mem => exact ih read_rest mem

theorem divided_of_items {items} (all : (parts tokens).mapM item? = some items) :
    Divided Element.item.form tokens := by
  refine divided_parts fun piece mem => ?_
  obtain ⟨value, read⟩ := isSome_of_mapM all piece mem
  unfold item? at read
  split at read
  · exact ⟨_, rfl⟩
  · cases read

theorem divided_of_entries {entries} (all : (parts tokens).mapM entry? = some entries) :
    Divided Element.entry.form tokens := by
  refine divided_parts fun piece mem => ?_
  obtain ⟨value, read⟩ := isSome_of_mapM all piece mem
  unfold entry? at read
  split at read
  · exact ⟨_, _, rfl⟩
  · cases read

/-! ### Tokens of a text -/

theorem lex_ne_call {text} (read : lex text = .ok tokens) (name : String) :
    .call name ∉ tokens := by
  intro mem
  obtain ⟨start, rest, ⟨⟩⟩ := (Lexer.tokens_eq_ok.mp read).exists_reads mem

theorem callsOpen_markCalls (unmarked : ∀ name, .call name ∉ tokens) :
    callsOpen (markCalls tokens) = true := by
  fun_induction markCalls tokens with
  | case1 name rest ih =>
    have opened := ih fun other mem => unmarked other (List.mem_cons_of_mem _ mem)
    rw [markCalls] at opened ⊢
    · exact opened
    · simp
    · simp
  | case2 token rest _ ih =>
    have opened := ih fun other mem => unmarked other (List.mem_cons_of_mem _ mem)
    cases token with
    | call name => exact absurd List.mem_cons_self (unmarked name)
    | val _ | op _ | var _ => exact opened
  | case3 => rfl

theorem eq_cons_of_callsOpen_call {name} (opened : callsOpen (.call name :: rest) = true) :
    ∃ inside, rest = .op .leftParen :: inside ∧ callsOpen inside = true := by
  unfold callsOpen at opened
  split at opened
  · rename_i absurd
    cases absurd
  · rename_i same
    cases same
    exact ⟨_, rfl, opened⟩
  · cases opened
  · rename_i not_call same
    cases same
    exact (not_call name rfl).elim

theorem substitute_leftParen (host : Host σ) (rest : List Token) :
    substitute host (.op .leftParen :: rest) =
      (do return .op .leftParen :: (← substitute host rest)) := by
  rw [substitute]
  · simp
  · simp

theorem callsOpen_substitute {host replaced after} (opened : callsOpen tokens = true)
    (done : substitute host tokens session = .ok replaced after) : callsOpen replaced = true := by
  fun_induction substitute host tokens generalizing session after replaced with
  | case1 name rest ih =>
    obtain ⟨current, _, _, done⟩ := Run.bind_eq_ok.mp done
    obtain ⟨value, _, _, done⟩ := Run.bind_eq_ok.mp done
    obtain ⟨later, _, done_rest, ⟨⟩⟩ := Run.bind_eq_ok.mp done
    exact (ih opened done_rest :)
  | case2 name rest ih =>
    obtain ⟨value, _, _, done⟩ := Run.bind_eq_ok.mp done
    obtain ⟨later, _, done_rest, ⟨⟩⟩ := Run.bind_eq_ok.mp done
    exact (ih opened done_rest :)
  | case3 token rest _ not_var ih =>
    obtain ⟨later, _, done_rest, ⟨⟩⟩ := Run.bind_eq_ok.mp done
    cases token with
    | val _ | op _ =>
      have later_opened := ih opened done_rest
      exact later_opened
    | var name => exact (not_var name rfl).elim
    | call name =>
      obtain ⟨inside, rfl, inside_opened⟩ := eq_cons_of_callsOpen_call opened
      have later_opened := ih inside_opened done_rest
      rw [substitute_leftParen] at done_rest
      obtain ⟨_, _, _, ⟨⟩⟩ := Run.bind_eq_ok.mp done_rest
      exact later_opened
  | case4 =>
    cases done
    rfl

end Vimlet
