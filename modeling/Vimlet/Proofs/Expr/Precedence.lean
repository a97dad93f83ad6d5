import Vimlet.Proofs.Expr.Shortening
import Vimlet.Recorder

/-!
# Reduction implements the precedence of operators

At any time of a reduction the tokens are those of a tree with enough parentheses, which denotes the
value of the whole expression. Each rule replaces a redex of the tree by its value, and as long as
something is left to compute a cycle finds a redex.
-/

namespace Vimlet

open Reduce

variable {σ : Type}

/-- The tokens are those of a tree with enough parentheses, which denotes a value and a heap. -/
def Represents (start : Session σ) (final : Heap) (result : Value) (tokens : List Token)
    (session : Session σ) : Prop :=
  start.heap.Grows session.heap ∧ session = start.withHeap session.heap ∧
    ∃ tree : Tree .expression, tree.tokens = tokens ∧ tree.Grouped ∧
      Denotes start session.heap tree final result

section Invariant

variable {start : Session σ} {final : Heap} {result : Value} (closed : start.heap.Closed)
include closed

theorem Located.contract {tree act before after session} (located : Located tree act before after)
    (grouped : tree.Grouped) (grown : start.heap.Grows session.heap)
    (session_eq : session = start.withHeap session.heap)
    (denotes : Denotes start session.heap tree final result) :
    Meets (fun value => Represents start final result (before.reverse ++ .val value :: after))
      (fun _ _ => False) (act session) := by
  obtain ⟨hole, route, node, rfl, redex, front_eq, back_eq⟩ := located
  obtain ⟨node_heap, node_result, node_denotes, replace⟩ := Route.denotes_replace denotes
  obtain ⟨value, later, computed, grows, leaf, leaf_tokens, leaf_grouped, tightest, leaf_denotes⟩ :=
    redex.contract closed grown node_denotes
  rw [session_eq, computed]
  refine ⟨grown.trans grows, rfl, route.plug leaf, ?_,
    (Route.grouped_replace grouped tightest leaf_grouped).1,
    replace later leaf grows leaf_denotes⟩
  simp [Route.tokens_plug, leaf_tokens, front_eq, back_eq]

/-- Every pass keeps what the tokens represent, and none of them stops. -/
theorem passes_represent (engine : Engine σ) :
    ∀ pass ∈ passes engine, pass.Maintains (fun _ _ => False) (Represents start final result) := by
  refine passes_maintain fun before tokens action after session contraction represents => ?_
  obtain ⟨grown, session_eq, tree, split, grouped, denotes⟩ := represents
  have located := contraction.located engine grouped split
  exact located.contract closed grouped grown session_eq denotes

theorem reduceWithin_represents (engine : Engine σ) (text : String) (fuel : Nat)
    (tokens : List Token) (session : Session σ) (enough : tokens.length ≤ fuel)
    (represents : Represents start final result tokens session) :
    ∃ value after, reduceWithin engine text fuel tokens session = .ok value after ∧
      Represents start final result [.val value] after := by
  induction fuel generalizing tokens session with
  | zero =>
    obtain ⟨_, _, tree, rfl, _⟩ := represents
    exact absurd (List.length_eq_zero_iff.mp (Nat.le_zero.mp enough)) (tokens_ne_nil tree trivial)
  | succ fuel ih =>
    obtain ⟨_, _, tree, tokens_eq, grouped, _⟩ := id represents
    obtain has | ⟨value, settled⟩ := Tree.progresses (σ := σ) grouped
    · have cycle := runPasses_maintains (passes_represent closed engine) tokens session represents
      have two := has.two_le_length
      rw [tokens_eq] at two
      obtain ⟨first, second, rest, rfl⟩ :
          ∃ first second rest, tokens = first :: second :: rest := by
        match tokens, two with
        | first :: second :: rest, _ => exact ⟨first, second, rest, rfl⟩
      simp only [reduceWithin]
      cases ended : runPasses (passes engine) (first :: second :: rest) session with
      | error stop after =>
        rw [ended] at cycle
        exact cycle.elim
      | ok outcome after =>
        rw [ended] at cycle
        rw [Run.bind_ok ended]
        obtain ⟨unchanged, _⟩ | ⟨changed, shorter⟩ :=
          runPasses_shortens (passes_shorten engine) _ _ _ _ ended
        · have idle := idle_of_unchanged ended unchanged
          rw [← tokens_eq] at idle
          exact absurd has (idle.not_hasRedex grouped session)
        · rw [if_pos changed]
          exact ih outcome.1 after (by omega) cycle
    · rw [tokens_of_settled settled] at tokens_eq
      subst tokens_eq
      exact ⟨value, session, rfl, represents⟩

end Invariant

/-- Reduction implements the precedence of operators. If a tree with enough parentheses evaluates to
a value, its tokens are reduced to a value with the same contents. -/
theorem reduce_tokens_unfold_eq_evaluate (engine : Engine σ) (text : String)
    (tree : Tree .expression) (grouped : tree.Grouped) (session : Session σ)
    (closed : session.heap.Closed) (leaves : tree.LeavesIn session.heap) (value : Value)
    (after : Session σ) (done : tree.evaluate session = .ok value after) :
    ∃ result later, reduce engine text tree.tokens session = .ok result later ∧
      ∀ depth, later.heap.unfold depth result = after.heap.unfold depth value := by
  obtain ⟨grown, _, denotes⟩ := Denotes.of_evaluate leaves (.refl session.heap) done
  have represents : Represents session after.heap value tree.tokens session :=
    ⟨.refl _, rfl, tree, rfl, grouped, denotes⟩
  obtain ⟨result, later, reduced, later_grown, _, last, last_tokens, last_grouped, last_denotes⟩ :=
    reduceWithin_represents closed engine text tree.tokens.length tree.tokens session le_rfl
      represents
  have settled := settled_of_tokens last_grouped last_tokens
  obtain ⟨_, same⟩ := last_denotes.settled settled
  have twins : Twins session.heap after.heap later.heap := ⟨closed, grown, later_grown⟩
  exact ⟨result, later, reduced, fun depth => (twins.unfold_eq same depth).symm⟩

/-- The tree of `[2 - 3 - 4 * -[5, 6][1]]`. -/
def Tree.sample : Tree .expression :=
  let number (n : Int) : Tree .expression := .operand (.value (.integer n))
  let pair : Tree .operand :=
    .list (.moreParts (.item (number 5)) (.lastPart (.item (number 6))))
  let product : Tree .expression :=
    .binary .times 4 rfl (number 4) (.unary .minus rfl (.operand (.index pair (number 1))))
  let difference : Tree .expression := .binary .minus 3 rfl (number 2) (number 3)
  .operand (.list (.lastPart (.item (.binary .minus 3 rfl difference product))))

/-- The tokens of `[2 - 3 - 4 * -[5, 6][1]]` are reduced to a List that holds 23. -/
theorem reduce_tokens_unfold_eq_evaluate_sample :
    Tree.sample.Grouped ∧
      ∃ result later,
        reduce (Engine.ofDepth Recorder.host 0) "" Tree.sample.tokens { host := {} } =
          .ok result later ∧
        ∀ depth, later.heap.unfold (depth + 2) result = .list [.scalar (.integer 23)] := by
  have grouped : Tree.sample.Grouped := by
    simp [Tree.sample, Tree.Grouped, Tree.level]
  have closed : Heap.Closed {} := by
    rintro (cell | cell) value mem <;> cases mem
  have leaves : Tree.sample.LeavesIn {} := by
    have integer (n : Int) : Value.In {} (.integer n) := Value.in_of_scalar rfl
    simp [Tree.sample, Tree.LeavesIn, integer]
  refine ⟨grouped, ?_⟩
  obtain ⟨result, later, reduced, same⟩ := reduce_tokens_unfold_eq_evaluate
    (Engine.ofDepth Recorder.host 0) "" Tree.sample grouped { host := {} } closed leaves
    (.list 1)
    { host := {}, heap := { lists := #[⟨#[.integer 5, .integer 6], 0⟩, ⟨#[.integer 23], 0⟩] } }
    rfl
  exact ⟨result, later, reduced, fun depth => same (depth + 2)⟩

end Vimlet
