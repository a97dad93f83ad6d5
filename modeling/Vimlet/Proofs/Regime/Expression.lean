import Vimlet.Proofs.Expr.Tokens
import Vimlet.Proofs.Regime.Function
import Vimlet.Proofs.Value.Transfer

/-!
# Regimes of expressions

The values among the tokens of an expression belong to the heap: those that are read are no
containers, and the others come from variables, options, literals, operations and calls.
-/

namespace Vimlet

open List

variable {σ : Type}
variable {heap : Heap} {tokens rest part before : List Token} {engine engine' : Engine σ}
  {value : Value} {token : Token} {args : List Value}

/-! ### Values that are read -/

theorem Lexer.Reads.scalar {text rest} (reads : Reads text (.val value) rest) :
    value.handle? = none := by
  cases reads with
  | double | single => rfl
  | number _ _ read =>
    have numeric := (number?_spec read).1
    cases value with
    | bool | integer | number => rfl
    | nil | str | list | object | function => cases numeric

theorem mem_markCalls (mem : .val value ∈ markCalls tokens) : .val value ∈ tokens := by
  fun_induction markCalls tokens with
  | case1 name rest ih =>
    obtain same | mem := mem_cons.mp mem
    · cases same
    · exact mem_cons_of_mem _ (ih mem)
  | case2 token rest _ ih =>
    obtain same | mem := mem_cons.mp mem
    · exact same ▸ mem_cons_self
    · exact mem_cons_of_mem _ (ih mem)
  | case3 => cases mem

namespace Regime

/-- The values among tokens belong to a heap. -/
def OwnedTokens (regime : Regime σ) (heap : Heap) (tokens : List Token) : Prop :=
  ∀ value, .val value ∈ tokens → regime.owns heap value

variable {regime : Regime σ}

namespace OwnedTokens

theorem nil : regime.OwnedTokens heap [] :=
  fun _ mem => absurd mem not_mem_nil

theorem subset (owned : regime.OwnedTokens heap tokens) (subset : rest ⊆ tokens) :
    regime.OwnedTokens heap rest :=
  fun value mem => owned value (subset mem)

theorem tail (owned : regime.OwnedTokens heap (token :: tokens)) : regime.OwnedTokens heap tokens :=
  owned.subset (subset_cons_self _ _)

theorem first (owned : regime.OwnedTokens heap (token :: tokens)) :
    regime.OwnedTokens heap [token] :=
  owned.subset (cons_subset_cons token (nil_subset tokens))

theorem head (owned : regime.OwnedTokens heap (.val value :: tokens)) : regime.owns heap value :=
  owned value mem_cons_self

theorem cons (first : regime.owns heap value) (owned : regime.OwnedTokens heap tokens) :
    regime.OwnedTokens heap (.val value :: tokens) := by
  intro other mem
  obtain same | mem := mem_cons.mp mem
  · cases same
    exact first
  · exact owned other mem

theorem append {more} (first : regime.OwnedTokens heap tokens)
    (second : regime.OwnedTokens heap more) : regime.OwnedTokens heap (tokens ++ more) := by
  intro value mem
  obtain mem | mem := mem_append.mp mem
  · exact first value mem
  · exact second value mem

theorem later {before after} (owned : regime.OwnedTokens before.heap tokens)
    (leads : regime.Leads before after) : regime.OwnedTokens after.heap tokens :=
  fun value mem => leads.owns (owned value mem)

end OwnedTokens

/-- What two engines do agrees, given values that belong to the heap. -/
structure Engines (regime : Regime σ) (engine engine' : Engine σ) : Prop where
  eval (session : Session σ) (text : String) :
    regime.Agrees session regime.owns (engine.eval text) (engine'.eval text)
  call (session : Session σ) (name : String) {args} : regime.Owned session.heap args →
    regime.Agrees session regime.owns (engine.call name args) (engine'.call name args)
  run (session : Session σ) (lines : List Line) :
    regime.Accords session (engine.run lines) (engine'.run lines)

/-- What a rule finds belongs to the heap. -/
def OwnedFinding (regime : Regime σ) (heap : Heap) (found : Option (Value × List Token)) : Prop :=
  ∀ value rest, found = some (value, rest) →
    regime.owns heap value ∧ regime.OwnedTokens heap rest

/-- Two rules agree on tokens whose values belong to the heap. -/
def Rules (regime : Regime σ) (rule rule' : Reduce.Rule σ) : Prop :=
  ∀ session before tokens, regime.OwnedTokens session.heap tokens →
    regime.Agrees session regime.OwnedFinding (rule before tokens) (rule' before tokens)

/-- Two passes agree on tokens whose values belong to the heap. -/
def Passes (regime : Regime σ) (pass pass' : Reduce.Pass σ) : Prop :=
  ∀ session tokens, regime.OwnedTokens session.heap tokens →
    regime.Agrees session (fun heap outcome => regime.OwnedTokens heap outcome.1) (pass tokens)
      (pass' tokens)

/-! ### Values among tokens -/

section Tokens

open Reduce

theorem OwnedTokens.argumentsFrom? (owned : regime.OwnedTokens heap tokens)
    (found : Reduce.argumentsFrom? tokens = some (args, rest)) :
    regime.Owned heap args ∧ regime.OwnedTokens heap rest := by
  fun_induction Reduce.argumentsFrom? tokens generalizing args rest with
  | case1 value after =>
    cases found
    exact ⟨.cons owned.head .nil, owned.tail.tail⟩
  | case2 value after ih =>
    obtain ⟨⟨more, last⟩, found_more, ⟨⟩⟩ := Option.map_eq_some_iff.mp found
    obtain ⟨args_owned, rest_owned⟩ := ih owned.tail.tail found_more
    exact ⟨.cons owned.head args_owned, rest_owned⟩
  | case3 => cases found

theorem OwnedTokens.arguments? (owned : regime.OwnedTokens heap tokens)
    (found : Reduce.arguments? tokens = some (args, rest)) :
    regime.Owned heap args ∧ regime.OwnedTokens heap rest := by
  unfold Reduce.arguments? at found
  split at found
  · cases found
    exact ⟨.nil, owned.tail⟩
  · exact owned.argumentsFrom? found

theorem OwnedTokens.splitAt? {symbol inside} (owned : regime.OwnedTokens heap tokens)
    (found : Reduce.splitAt? symbol tokens = some (inside, rest)) :
    regime.OwnedTokens heap inside ∧ regime.OwnedTokens heap rest := by
  induction tokens generalizing inside rest with
  | nil => cases found
  | cons token after ih =>
    unfold Reduce.splitAt? at found
    split at found
    · cases found
      exact ⟨.nil, owned.tail⟩
    · obtain ⟨⟨more, last⟩, found_more, ⟨⟩⟩ := Option.map_eq_some_iff.mp found
      obtain ⟨inside_owned, rest_owned⟩ := ih owned.tail found_more
      exact ⟨owned.first.append inside_owned, rest_owned⟩

theorem mem_partsFrom {current} (mem : part ∈ partsFrom current tokens) (within : token ∈ part) :
    token ∈ current ∨ token ∈ tokens := by
  induction tokens generalizing current with
  | nil =>
    unfold partsFrom at mem
    split at mem
    · cases mem
    · rw [mem_singleton.mp mem, mem_reverse] at within
      exact .inl within
  | cons first rest ih =>
    have skipped (mem : part ∈ partsFrom [] rest) : token ∈ current ∨ token ∈ first :: rest :=
      (ih mem).elim (absurd · not_mem_nil) fun later => .inr (mem_cons_of_mem _ later)
    unfold partsFrom at mem
    split at mem
    · split at mem
      · exact skipped mem
      · obtain rfl | mem := mem_cons.mp mem
        · exact .inl (mem_reverse.mp within)
        · exact skipped mem
    · obtain passed | later := ih mem
      · obtain rfl | passed := mem_cons.mp passed
        · exact .inr mem_cons_self
        · exact .inl passed
      · exact .inr (mem_cons_of_mem _ later)

theorem OwnedTokens.parts (owned : regime.OwnedTokens heap tokens)
    (mem : part ∈ Reduce.parts tokens) : regime.OwnedTokens heap part :=
  fun value within => owned value ((mem_partsFrom mem within).elim nofun id)

theorem OwnedTokens.items {items} (owned : regime.OwnedTokens heap tokens)
    (found : (Reduce.parts tokens).mapM item? = some items) : regime.Owned heap items := by
  intro value mem
  obtain ⟨part, part_mem, is_item⟩ := Kept.exists_of_mem_mapM found mem
  unfold item? at is_item
  split at is_item <;> cases is_item
  exact (owned.parts part_mem).head

theorem OwnedTokens.entries {entries} (owned : regime.OwnedTokens heap tokens)
    (found : (Reduce.parts tokens).mapM entry? = some entries) :
    ∀ entry ∈ entries, regime.owns heap entry.2 := by
  intro entry entry_mem
  obtain ⟨part, part_mem, is_entry⟩ := Kept.exists_of_mem_mapM found entry_mem
  unfold entry? at is_entry
  split at is_entry <;> cases is_entry
  exact (owned.parts part_mem).tail.tail.head

end Tokens

namespace Kept

variable {host : Host σ} {probe probe' : Probe σ} (kept : regime.Kept host probe probe')
  {session : Session σ}
include kept

/-! ### Rules -/

theorem callRef (engines : regime.Engines engine engine') (ref : FuncRef)
    (owned : regime.Owned session.heap args) :
    regime.Agrees session regime.owns (engine.callRef ref args) (engine'.callRef ref args) := by
  cases placed : ref.script with
  | none =>
    rw [callRef_of_none placed, callRef_of_none placed]
    exact engines.call session ref.name owned
  | some id =>
    intro held
    have around := kept.script id held
    have inside := engines.call (session.setScript (some id)) ref.name owned around.holds
    rw [callRef_of_some placed, callRef_of_some placed]
    exact kept.layered held around (fun _ => rfl) inside

section Rules

open Reduce

theorem sweepWithin {rule rule'} (rules : regime.Rules rule rule') (sticky : Bool) (fuel : Nat)
    (changed : Bool) (before_owned : regime.OwnedTokens session.heap before)
    (rest_owned : regime.OwnedTokens session.heap rest) :
    regime.Agrees session (fun heap outcome => regime.OwnedTokens heap outcome.1)
      (sweepWithin sticky rule fuel before rest changed)
      (sweepWithin sticky rule' fuel before rest changed) := by
  have reversed {session : Session σ} {before : List Token}
      (owned : regime.OwnedTokens session.heap before) :
      regime.OwnedTokens session.heap before.reverse :=
    owned.subset fun _ mem => mem_reverse.mp mem
  induction fuel generalizing session before rest changed with
  | zero => exact kept.pure ((reversed before_owned).append rest_owned)
  | succ fuel ih =>
    cases rest with
    | nil => exact kept.pure (reversed before_owned)
    | cons token rest =>
      refine kept.bind (rules session before _ rest_owned) fun found after leads owned => ?_
      rcases found with _ | ⟨value, later⟩
      · have passed : regime.OwnedTokens session.heap (token :: before) :=
          rest_owned.first.append before_owned
        exact ih _ (passed.later leads) (rest_owned.tail.later leads)
      · obtain ⟨value_owned, later_owned⟩ := owned value later rfl
        cases sticky
        · exact ih _ (.cons value_owned (before_owned.later leads)) later_owned
        · exact ih _ (before_owned.later leads) (.cons value_owned later_owned)

theorem sweep {rule rule'} (rules : regime.Rules rule rule') (sticky : Bool) :
    regime.Passes (sweep sticky rule) (sweep sticky rule') :=
  fun _ _ owned => kept.sweepWithin rules sticky _ _ nofun owned

/-- An operation on values that gives no container. -/
theorem computed {result} (scalar : ∀ value, result = .ok value → value.handle? = none) :
    regime.Complies session regime.owns (Run.ofExcept result) :=
  kept.ofExcept fun value is_value => kept.owns_scalar (scalar value is_value)

theorem applyUnary (symbol : Op) {operand} (owned : regime.owns session.heap operand) :
    regime.Complies session regime.owns (applyUnary symbol operand) := by
  unfold Reduce.applyUnary
  split
  · exact kept.computed fun value done => (Value.negate_ok done).2
  · exact inspect (kept.pure (kept.owns_scalar rfl))
  · split
    · exact kept.pure owned
    · refine kept.computed fun value done => ?_
      cases once : operand.negate with
      | error cause => rw [once] at done; cases done
      | ok negated =>
        rw [once] at done
        exact (Value.negate_ok done).2

theorem unaryFrom (owned : regime.OwnedTokens session.heap tokens) :
    regime.Complies session (fun heap outcome => regime.OwnedTokens heap outcome.1)
      (unaryFrom before tokens) := by
  induction tokens generalizing before with
  | nil => exact kept.pure nofun
  | cons token rest ih =>
    refine kept.bind (ih owned.tail) fun outcome after leads outcome_owned => ?_
    have first := owned.first.later leads
    dsimp only
    split
    · split
      · rename_i same _
        rw [same] at outcome_owned
        exact kept.bind (kept.applyUnary _ outcome_owned.head) fun value _ leads' value_owned =>
          kept.pure (.cons value_owned (outcome_owned.tail.later leads'))
      · exact kept.pure (first.append outcome_owned)
    · exact kept.pure (first.append outcome_owned)

theorem applyBinary (symbol : Op) (a b : Value) :
    regime.Complies session regime.owns (applyBinary symbol a b) := by
  cases symbol with
  | times | divide | modulo | plus | minus =>
    exact kept.computed fun value done => (Value.arithmetic_ok done).2.2
  | dot => exact inspect (kept.pure (kept.owns_scalar rfl))
  | less | lessEqual | greater | greaterEqual => exact kept.pure (kept.owns_scalar rfl)
  | equal | notEqual =>
    exact kept.bind (kept.equal a b) fun _ _ _ _ => kept.pure (kept.owns_scalar rfl)
  | _ => exact kept.internal

theorem perform (engines : regime.Engines engine engine') {action}
    (contraction : Contraction before tokens action rest)
    (owned : regime.OwnedTokens session.heap tokens) :
    regime.OwnedTokens session.heap rest ∧
      regime.Agrees session regime.owns (action.perform engine) (action.perform engine') := by
  cases contraction with
  | call name _ read =>
    obtain ⟨args_owned, rest_owned⟩ := owned.tail.tail.arguments? read
    exact ⟨rest_owned, engines.call session name args_owned⟩
  | apply function read =>
    obtain ⟨args_owned, rest_owned⟩ := owned.tail.tail.arguments? read
    exact ⟨rest_owned, kept.callRef engines function args_owned⟩
  | list _ split all =>
    obtain ⟨inside_owned, rest_owned⟩ := owned.tail.splitAt? split
    exact ⟨rest_owned, kept.newList (inside_owned.items all)⟩
  | object _ split all =>
    obtain ⟨inside_owned, rest_owned⟩ := owned.tail.splitAt? split
    refine ⟨rest_owned, inspect (kept.newObject (Table.forall_values_ofList fun entry mem => ?_))⟩
    obtain ⟨source, listed, rfl⟩ := mem_map.mp mem
    exact inside_owned.entries all source listed
  | index base key => exact ⟨owned.tail.tail.tail.tail, kept.index base key⟩
  | slice base first last =>
    exact ⟨owned.subset fun token mem => by simp [mem], kept.slice base _ _⟩
  | group _ value => exact ⟨owned.tail.tail.tail, kept.pure owned.tail.head⟩
  | unary _ _ operand => exact ⟨owned.tail.tail, kept.applyUnary _ owned.tail.head⟩
  | binary _ _ a b => exact ⟨owned.tail.tail.tail, kept.applyBinary _ a b⟩

theorem passes (engines : regime.Engines engine engine') :
    Forall₂ regime.Passes (passes engine) (passes engine') := by
  refine forall₂_passes (fun sticky rule alike => kept.sweep ?_ sticky)
    fun _ _ owned => kept.unaryFrom owned
  intro session before tokens owned
  obtain idle | ⟨action, after, contraction, applies⟩ := alike before tokens
  · rw [idle, idle]
    exact kept.pure nofun
  · obtain ⟨rest_owned, acts⟩ := kept.perform engines contraction owned
    rw [applies, applies]
    refine kept.bind acts fun value later leads value_owned => kept.pure ?_
    rintro _ _ ⟨⟩
    exact ⟨value_owned, rest_owned.later leads⟩

theorem runPasses {passes passes'} (alike : Forall₂ regime.Passes passes passes') :
    regime.Passes (runPasses passes) (runPasses passes') := by
  induction alike with
  | nil => exact fun _ _ owned => kept.pure owned
  | cons first _ ih =>
    intro session tokens owned
    refine kept.bind (first session tokens owned) fun outcome after _ outcome_owned => ?_
    exact kept.bind (ih after outcome.1 outcome_owned) fun _ _ _ last_owned =>
      kept.pure last_owned

theorem reduceWithin (engines : regime.Engines engine engine') (text : String) (fuel : Nat)
    (owned : regime.OwnedTokens session.heap tokens) :
    regime.Agrees session regime.owns (reduceWithin engine text fuel tokens)
      (reduceWithin engine' text fuel tokens) := by
  induction fuel generalizing session tokens with
  | zero =>
    unfold Reduce.reduceWithin
    split
    · exact kept.internal
    · exact kept.pure owned.head
    · exact kept.fault _
    · exact kept.fault _
    · contradiction
  | succ fuel ih =>
    unfold Reduce.reduceWithin
    split
    · exact kept.internal
    · exact kept.pure owned.head
    · exact kept.fault _
    · contradiction
    · rename_i same _ _ _
      cases same
      refine kept.bind (kept.runPasses (kept.passes engines) session _ owned)
        fun outcome after _ outcome_owned => ?_
      dsimp only
      split
      · exact ih outcome_owned
      · exact kept.fault _

end Rules

theorem substitute (owned : regime.OwnedTokens session.heap tokens) :
    regime.Complies session regime.OwnedTokens (substitute host tokens) := by
  fun_induction Vimlet.substitute host tokens generalizing session with
  | case1 name rest ih =>
    intro held
    have option_owned : regime.Complies session regime.owns
      (Run.ofExcept (host.option name session.host)) :=
      kept.ofExcept fun value is_option => kept.owns_option held is_option
    refine inspect (kept.bind option_owned fun value after leads value_owned => ?_) held
    exact kept.bind (ih (owned.tail.tail.later leads)) fun more _ leads' more_owned =>
      kept.pure (.cons (leads'.owns value_owned) more_owned)
  | case2 name rest ih =>
    refine kept.bind (kept.lookup name) fun value after leads value_owned => ?_
    exact kept.bind (ih (owned.tail.later leads)) fun more _ leads' more_owned =>
      kept.pure (.cons (leads'.owns value_owned) more_owned)
  | case3 token rest _ _ ih =>
    exact kept.bind (ih owned.tail) fun more _ leads more_owned =>
      kept.pure ((owned.first.later leads).append more_owned)
  | case4 => exact kept.pure .nil

theorem evaluate (engines : regime.Engines engine engine') (text : String) :
    regime.Agrees session regime.owns (evaluate host engine text) (evaluate host engine' text) := by
  unfold Vimlet.evaluate
  split
  · rename_i stop failed
    refine kept.stopped fun value returns => ?_
    have ordinary := lex_error failed
    rw [returns] at ordinary
    cases ordinary
  · exact kept.fault _
  · rename_i tokens _ read
    have owned : regime.OwnedTokens session.heap (markCalls tokens) := by
      intro value mem
      obtain ⟨start, rest, reads⟩ :=
        (Lexer.tokens_eq_ok.mp read).exists_reads (mem_markCalls mem)
      exact kept.owns_scalar reads.scalar
    exact kept.bind (kept.substitute owned) fun replaced after _ replaced_owned =>
      kept.reduceWithin engines text _ replaced_owned

end Kept

end Regime

end Vimlet
