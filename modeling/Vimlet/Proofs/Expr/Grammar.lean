import Vimlet.Proofs.Expr.CallSites
import Vimlet.Proofs.Expr.Cycles
import Vimlet.Recorder
import Vimlet.Runner

/-!
# Reduction accepts only the grammar

If tokens are reduced to one value, its history has computed the value for a syntax tree, whose
tokens they are. This needs the parenthesis of every call, which the tokens of each text have: the
token after a call is taken for its parenthesis without a look at it.
-/

namespace Vimlet

open Reduce List

variable {σ : Type}

theorem Tree.callsOpen_append {phrase} (tree : Tree phrase) (rest : List Token) :
    callsOpen (tree.tokens ++ rest) = callsOpen rest := by
  induction tree generalizing rest with
  | value | missing | noArguments => rfl
  | operand _ ih | item _ ih | lastPart _ ih | arguments _ ih | lastArgument _ ih
  | unary _ _ _ ih => exact ih rest
  | paren _ ih | list _ ih | object _ ih | call _ _ ih =>
    simp only [tokens, callsOpen, cons_append, append_assoc, ih, nil_append]
  | apply _ _ first second | index _ _ first second | binary _ _ _ _ _ first second
  | entry _ _ first second | moreParts _ _ first second | moreArguments _ _ first second =>
    simp only [tokens, callsOpen, cons_append, append_assoc, first, second, nil_append]
  | slice _ _ _ base first last =>
    simp only [tokens, callsOpen, cons_append, append_assoc, base, first, last, nil_append]

/-- The grammar gives every call its parenthesis. -/
theorem Derives.callsOpen {phrase tokens} (derives : Derives phrase tokens) :
    callsOpen tokens = true := by
  obtain ⟨tree, rfl⟩ := derives
  have opened := tree.callsOpen_append []
  rwa [append_nil] at opened

end Vimlet
