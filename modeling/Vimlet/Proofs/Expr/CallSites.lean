import Vimlet.Proofs.Expr.History

/-!
# Each call site is called once, inside out

A contraction performs at most one action, at a place that had none, once the parts of the
expression there are values. So no place occurs twice in the history of a reduction, and each call
is given the values of its own arguments.
-/

namespace Vimlet

open Reduce Run List

variable {σ : Type}
variable {tokens : List Token} {made : Nat → Action → Value → Prop} {place : Nat} {action : Action}
  {value : Value}

/-! ### Orderly histories -/

/-- A call stands at a place among tokens, and a history computes its arguments. -/
def CallAt (history : History σ) (tokens : List Token) (place : Nat) (name : String)
    (args : List Value) : Prop :=
  ∃ (front : List Token) (inside : Tree .arguments) (back : List Token),
    tokens = front ++ .call name :: .op .leftParen :: (inside.tokens ++ .op .rightParen :: back) ∧
    front.length = place ∧ inside.Computes (Made history) (place + 2) args

/-- No two actions have one place, and every call at its place is given the arguments computed
before. -/
structure Orderly (tokens : List Token) (history : History σ) : Prop where
  apart : (history.map (·.place)).Nodup
  called (earlier : History σ) (occurrence : Occurrence σ) (later : History σ) (name : String)
    (args : List Value) (split : history = earlier ++ occurrence :: later)
    (same : occurrence.action = .call name args) :
    CallAt earlier tokens occurrence.place name args

theorem orderly_nil (tokens : List Token) : Orderly tokens ([] : History σ) where
  apart := nodup_nil
  called := by simp

variable {history : History σ}

theorem Orderly.snoc {occurrence} (orderly : Orderly tokens history)
    (untouched : Untouched history occurrence.place)
    (called : ∀ name args, occurrence.action = .call name args →
      CallAt history tokens occurrence.place name args) :
    Orderly tokens (history ++ [occurrence]) where
  apart := by
    rw [map_append, nodup_append]
    refine ⟨orderly.apart, by simp, ?_⟩
    rintro place mem last last_mem rfl
    obtain ⟨old, old_mem, old_eq⟩ := mem_map.mp mem
    exact untouched old old_mem (old_eq.trans (by simpa using last_mem))
  called := by
    intro earlier other later name args split same
    -- the call is the new action, or it stands in the history before
    obtain rfl | ⟨later, last, rfl⟩ := eq_nil_or_concat later
    · obtain ⟨rfl, ⟨⟩⟩ := append_inj' split rfl
      exact called name args same
    · rw [concat_eq_append, ← cons_append, ← append_assoc] at split
      obtain ⟨rfl, _⟩ := append_inj' split rfl
      exact orderly.called earlier other later name args rfl same

/-! ### Reduction -/

section Reduction

variable {engine : Engine σ} {start : Session σ} {original : List Token}
variable {before after : List Token} {session : Session σ}

/-- The tokens and the session are what an orderly history has led to. -/
def Underway (engine : Engine σ) (start : Session σ) (original tokens : List Token)
    (session : Session σ) : Prop :=
  ∃ history, Course engine start history session ∧ Orderly original history ∧
    Remains history 0 tokens original

/-- An orderly history accounts for a failure. -/
def Broken (engine : Engine σ) (start : Session σ) (original : List Token) (stop : Stop)
    (session : Session σ) : Prop :=
  ∃ history, Accounts engine start history (.error stop session) ∧ Orderly original history

theorem Underway.broken {stop} (underway : Underway engine start original tokens session) :
    Broken engine start original stop session := by
  obtain ⟨history, course, orderly, _⟩ := underway
  have accounts : Accounts engine start (history ++ []) (.error stop session) :=
    course.accounts rfl
  rw [append_nil] at accounts
  exact ⟨history, accounts, orderly⟩

theorem getLast?_reverse_of_starts (starts : startsOperand before = true) (name : String) :
    before.reverse.getLast? ≠ some (.call name) := by
  rw [getLast?_reverse]
  cases before with
  | nil => simp
  | cons token before =>
    rintro ⟨⟩
    cases starts

/-- An action that is performed goes on with the history. -/
theorem Underway.perform (performable : Performable tokens action after)
    (apart : ∀ name, before.reverse.getLast? = some (.call name) →
      tokens.head? ≠ some (.op .leftParen))
    (underway : Underway engine start original (before.reverse ++ tokens) session) :
    Meets (fun value => Underway engine start original (before.reverse ++ .val value :: after))
      (Broken engine start original) (action.perform engine session) := by
  obtain ⟨history, course, orderly, remains⟩ := underway
  obtain ⟨passed, later, rfl, current, rebuild⟩ := remains.behind apart
  obtain ⟨tree, site, back, ready⟩ := performable history _ _ current
  have called : ∀ name args, action = .call name args →
      CallAt history (passed ++ later) site name args := by
    intro name args same
    obtain ⟨rfl, inside, back, later_eq, computes⟩ := ready.called name args same
    exact ⟨passed, inside, back, by rw [later_eq], (Nat.zero_add _).symm, computes⟩
  cases ended : action.perform engine session with
  | ok value next =>
    have avoids : Avoids [⟨site, action, .ok value next⟩] 0 (0 + passed.length) := by
      intro occurrence mem
      obtain rfl := mem_singleton.mp mem
      exact .inr ready.inside.1
    exact ⟨_, course.snoc site ended, orderly.snoc ready.untouched called,
      rebuild _ value after avoids (ready.contract value next)⟩
  | error stop next =>
    have failed : Accounts engine session [⟨site, action, .error stop next⟩]
        (.error stop next) := ⟨ended, rfl, rfl⟩
    exact ⟨_, course.accounts failed, orderly.snoc ready.untouched called⟩

theorem Underway.ungroup (starts : startsOperand before = true)
    (underway : Underway engine start original
      (before.reverse ++ .op .leftParen :: .val value :: .op .rightParen :: after) session) :
    Underway engine start original (before.reverse ++ .val value :: after) session := by
  obtain ⟨history, course, orderly, remains⟩ := underway
  obtain ⟨passed, later, rfl, current, rebuild⟩ :=
    remains.behind fun name last => absurd last (getLast?_reverse_of_starts starts name)
  have removed := rebuild [] value after (forall_mem_nil _)
    (by rw [append_nil]; exact current.paren)
  rw [append_nil] at removed
  exact ⟨history, course, orderly, removed⟩

theorem Underway.contract (contraction : Contraction before tokens action after)
    (underway : Underway engine start original (before.reverse ++ tokens) session) :
    Meets (fun value => Underway engine start original (before.reverse ++ .val value :: after))
      (Broken engine start original) (action.perform engine session) := by
  have apart (name : String) (last : before.reverse.getLast? = some (.call name)) :
      tokens.head? ≠ some (.op .leftParen) := fun opens =>
    getLast?_reverse_of_starts (contraction.starts_of_leftParen opens) name last
  cases contraction with
  | call _ _ read => exact underway.perform (performable_call read) apart
  | apply _ read => exact underway.perform (performable_apply read) apart
  | list _ split all => exact underway.perform (performable_list split all) apart
  | object _ split all => exact underway.perform (performable_object split all) apart
  | index base key => exact underway.perform (performable_index base key after) apart
  | slice base first last =>
    exact underway.perform (performable_slice base first last after) apart
  | group starts value => exact underway.ungroup starts
  | unary isUnary _ operand ends =>
    exact underway.perform (performable_unary isUnary operand ends) apart
  | binary isBinary _ a b rightFree =>
    have ends := continuesOperand_of_rightIsFree rightFree
    exact underway.perform (performable_binary isBinary a b ends) apart

/-- An orderly history accounts for a reduction, and computes the value that it gives. -/
theorem reduce_orderly (engine : Engine σ) (text : String) (opened : callsOpen tokens = true)
    (session : Session σ) :
    ∃ history, Accounts engine session history (reduce engine text tokens session) ∧
      Orderly tokens history ∧
      ∀ value after, reduce engine text tokens session = .ok value after →
        ∃ tree : Tree .expression, tree.tokens = tokens ∧ tree.Computes (Made history) 0 value := by
  have underway : Underway engine session tokens tokens session :=
    ⟨[], .nil session, orderly_nil tokens, .of_callsOpen opened 0⟩
  have meets := reduceWithin_maintains (fun _ _ _ underway => underway.broken)
    (passes_maintain fun _ _ _ _ _ contraction underway => underway.contract contraction)
    text tokens.length tokens session underway
  change Meets _ _ (reduce engine text tokens session) at meets
  cases ended : reduce engine text tokens session with
  | ok value after =>
    rw [ended] at meets
    obtain ⟨history, course, orderly, remains⟩ := meets
    obtain ⟨tree, later, split, computes, _, ⟨⟩⟩ := remains.val_inv
    have accounts : Accounts engine session (history ++ []) (.ok value after) :=
      course.accounts rfl
    rw [append_nil] at accounts split
    refine ⟨history, accounts, orderly, ?_⟩
    rintro _ _ ⟨⟩
    exact ⟨tree, split.symm, computes⟩
  | error stop after =>
    rw [ended] at meets
    obtain ⟨history, accounts, orderly⟩ := meets
    exact ⟨history, accounts, orderly, by rintro _ _ ⟨⟩⟩

end Reduction

/-! ### Call sites -/

/-- Every call among tokens that stand from a place on has given a value. -/
def AllCalled (made : Nat → Action → Value → Prop) (place : Nat) (tokens : List Token) : Prop :=
  ∀ offset name, tokens[offset]? = some (.call name) →
    ∃ args value, made (place + offset) (.call name args) value

section AllCalled

variable {rest : List Token}

theorem allCalled_nil (place : Nat) : AllCalled made place [] := by
  intro offset name found
  cases found

theorem AllCalled.cons {token} (later : AllCalled made (place + 1) rest)
    (head : ∀ name, token = .call name → ∃ args value, made place (.call name args) value) :
    AllCalled made place (token :: rest) := by
  intro offset name found
  cases offset with
  | zero =>
    cases found
    exact head name rfl
  | succ offset =>
    rw [getElem?_cons_succ] at found
    rw [show place + (offset + 1) = place + 1 + offset by omega]
    exact later offset name found

theorem AllCalled.op (symbol : Op) (later : AllCalled made (place + 1) rest) :
    AllCalled made place (.op symbol :: rest) :=
  later.cons (by rintro _ ⟨⟩)

theorem AllCalled.append {front} (first : AllCalled made place front)
    (second : AllCalled made (place + front.length) rest) :
    AllCalled made place (front ++ rest) := by
  intro offset name found
  rw [getElem?_append] at found
  split at found
  · exact first offset name found
  · rw [show place + offset = place + front.length + (offset - front.length) by omega]
    exact second _ name found

theorem AllCalled.close {symbol} (first : AllCalled made place rest) :
    AllCalled made place (rest ++ [.op symbol]) :=
  first.append ((allCalled_nil _).op symbol)

end AllCalled

theorem Tree.Computes.allCalled {phrase} {tree : Tree phrase} {result}
    (computes : tree.Computes made place result) : AllCalled made place tree.tokens := by
  induction tree generalizing place with
  | value v => exact (allCalled_nil _).cons (by rintro _ ⟨⟩)
  | missing | noArguments => exact allCalled_nil place
  | paren _ ih => exact ((ih computes).op _).close
  | list _ ih | object _ ih =>
    obtain ⟨_, parts, _⟩ := computes
    exact ((ih parts).op _).close
  | call name _ ih =>
    obtain ⟨values, args, root⟩ := computes
    refine (((ih args).op _).cons ?_).close
    rintro _ ⟨⟩
    exact ⟨values, result, root⟩
  | apply _ _ function_ih args_ih | index _ _ function_ih args_ih =>
    obtain ⟨_, _, function, args, _⟩ := computes
    exact ((function_ih function).append ((args_ih args).op _)).close
  | slice base first last base_ih first_ih last_ih =>
    obtain ⟨_, _, _, base_computes, first_computes, last_computes, _⟩ := computes
    have front := (base_ih base_computes).append ((first_ih first_computes).op .leftBracket)
    refine (front.append ((?_ : AllCalled made _ last.tokens).op _)).close
    rw [length_append, length_cons, ← Nat.add_assoc, ← Nat.add_assoc,
      Nat.add_right_comm _ first.tokens.length]
    exact last_ih last_computes
  | operand _ ih | arguments _ ih => exact ih computes
  | unary _ _ _ ih =>
    obtain ⟨_, inner, _⟩ := computes
    exact (ih inner).op _
  | binary _ _ _ _ _ left_ih right_ih =>
    obtain ⟨_, _, left, right, _⟩ := computes
    exact (left_ih left).append ((right_ih right).op _)
  | item _ ih | lastPart _ ih | lastArgument _ ih =>
    obtain ⟨_, inner, _⟩ := computes
    exact ih inner
  | entry _ _ first_ih second_ih | moreParts _ _ first_ih second_ih
  | moreArguments _ _ first_ih second_ih =>
    obtain ⟨_, _, first, second, _⟩ := computes
    exact (first_ih first).append ((second_ih second).op _)

def Occurrence.isCallAt (occurrence : Occurrence σ) (place : Nat) : Bool :=
  match occurrence.action with
  | .call _ _ => occurrence.place == place
  | _ => false

/-- How often a function was called by name at a place. -/
def callCount (history : History σ) (place : Nat) : Nat := history.countP (·.isCallAt place)

theorem Orderly.callCount_le_one (orderly : Orderly tokens history) (place : Nat) :
    callCount history place ≤ 1 := by
  have at_place (occurrence : Occurrence σ) (here : occurrence.isCallAt place = true) :
      (occurrence.place == place) = true := by
    unfold Occurrence.isCallAt at here
    split at here
    · exact here
    · cases here
  calc callCount history place
    _ ≤ history.countP (·.place == place) :=
        countP_mono_left fun occurrence _ => at_place occurrence
    _ = (history.map (·.place)).count place := by
        rw [count_eq_countP, countP_map]
        rfl
    _ ≤ 1 := nodup_iff_count_le_one.mp orderly.apart place

theorem Made.callCount_pos {name args} (made : Made history place (.call name args) value) :
    0 < callCount history place := by
  obtain ⟨after, mem⟩ := made
  exact countP_pos_iff.mpr ⟨_, mem, by simp [Occurrence.isCallAt]⟩

/-! ### Tokens of a text -/

def Token.callName? : Token → Option String
  | .call name => some name
  | _ => none

/-- The names before an opening parenthesis. -/
def siteNames : List Token → List String
  | .var name :: .op .leftParen :: rest => name :: siteNames rest
  | _ :: rest => siteNames rest
  | [] => []

theorem callNames_markCalls (unmarked : ∀ name, .call name ∉ tokens) :
    (markCalls tokens).filterMap Token.callName? = siteNames tokens := by
  fun_induction markCalls tokens with
  | case1 name rest ih =>
    have later := ih fun other mem => unmarked other (mem_cons_of_mem _ mem)
    rw [filterMap_cons, siteNames, later]
    rfl
  | case2 token rest not_site ih =>
    have later := ih fun other mem => unmarked other (mem_cons_of_mem _ mem)
    rw [filterMap_cons, later]
    cases token with
    | call name => exact absurd mem_cons_self (unmarked name)
    | val value => rfl
    | op symbol => rfl
    | var name =>
      rw [siteNames]
      · rfl
      · exact not_site
  | case3 => rfl

theorem Run.lookup_meets (name : String) (session : Session σ) :
    Meets (fun _ after => after = session) (fun _ after => after = session)
      (lookup name session) := by
  unfold lookup
  rw [get_bind]
  cases session.vars.find? name with
  | error cause => rfl
  | ok found => cases found <;> rfl

/-- The values of names are looked up without a change of the session, and all calls remain. -/
theorem substitute_meets (host : Host σ) (tokens : List Token) (session : Session σ) :
    Meets
      (fun replaced after => after = session ∧
        replaced.filterMap Token.callName? = tokens.filterMap Token.callName?)
      (fun _ after => after = session) (substitute host tokens session) := by
  fun_induction substitute host tokens with
  | case1 name rest ih =>
    have asked : Meets (fun _ after => after = session) (fun _ after => after = session)
        (ofExcept (host.option name session.host) session) := by
      cases host.option name session.host <;> rfl
    rw [get_bind]
    refine bind_meets asked ?_
    rintro value _ rfl
    exact bind_meets ih fun _ _ kept => kept
  | case2 name rest ih =>
    refine bind_meets (lookup_meets name session) ?_
    rintro value _ rfl
    exact bind_meets ih fun _ _ kept => kept
  | case3 token rest _ _ ih =>
    refine bind_meets ih fun replaced after kept => ?_
    refine ⟨kept.1, ?_⟩
    rw [filterMap_cons, filterMap_cons, kept.2]
  | case4 => exact ⟨rfl, rfl⟩

/-- The calls of an evaluation that reduces these tokens. -/
structure CallsInsideOut (engine : Engine σ) (session : Session σ) (tokens : List Token)
    (history : History σ) (ending : Ending σ Value) : Prop where
  /-- Nothing is done but the actions of the history, and none of them after one that fails. -/
  accounts : Accounts engine session history ending
  /-- No site is called twice. -/
  atMostOnce (place : Nat) : callCount history place ≤ 1
  /-- Every site is called if there is a value. -/
  exactlyOnce (value : Value) (after : Session σ) (done : ending = .ok value after) (place : Nat)
    (name : String) (site : tokens[place]? = some (.call name)) : callCount history place = 1
  /-- A call stands at its site. It is given the values of the arguments there, and all calls inside
  of them were made before. -/
  insideOut (earlier : History σ) (occurrence : Occurrence σ) (later : History σ) (name : String)
    (args : List Value) (split : history = earlier ++ occurrence :: later)
    (same : occurrence.action = .call name args) :
    ∃ (front : List Token) (inside : Tree .arguments) (back : List Token),
      tokens = front ++ .call name :: .op .leftParen ::
        (inside.tokens ++ .op .rightParen :: back) ∧
      front.length = occurrence.place ∧
      inside.Computes (Made earlier) (occurrence.place + 2) args ∧
      AllCalled (Made earlier) (occurrence.place + 2) inside.tokens
  /-- The value is the one of the whole expression. -/
  result (value : Value) (after : Session σ) (done : ending = .ok value after) :
    ∃ tree : Tree .expression, tree.tokens = tokens ∧ tree.Computes (Made history) 0 value

theorem callsInsideOut_of_stop (engine : Engine σ) (session : Session σ) (tokens : List Token)
    (stop : Stop) : CallsInsideOut engine session tokens [] (.error stop session) where
  accounts := rfl
  atMostOnce := fun _ => Nat.zero_le 1
  exactlyOnce := by rintro _ _ ⟨⟩
  insideOut := by simp
  result := by rintro _ _ ⟨⟩

theorem reduce_callsInsideOut (engine : Engine σ) (text : String) (opened : callsOpen tokens = true)
    (session : Session σ) :
    ∃ history,
      CallsInsideOut engine session tokens history (reduce engine text tokens session) := by
  obtain ⟨history, accounts, orderly, result⟩ := reduce_orderly engine text opened session
  refine ⟨history, accounts, orderly.callCount_le_one, ?_, ?_, result⟩
  · intro value after done place name site
    obtain ⟨tree, rfl, computes⟩ := result value after done
    obtain ⟨args, made_value, made⟩ := computes.allCalled place name site
    rw [Nat.zero_add] at made
    exact le_antisymm (orderly.callCount_le_one place) made.callCount_pos
  · intro earlier occurrence later name args split same
    obtain ⟨front, inside, back, tokens_eq, place_eq, computes⟩ :=
      orderly.called earlier occurrence later name args split same
    exact ⟨front, inside, back, tokens_eq, place_eq, computes, computes.allCalled⟩

/-- Each call site is called at most once, and once if there is a value, after the calls inside of
it and with the values of its own arguments. Nothing is done after an action that fails. -/
theorem evaluate_calls_inside_out (host : Host σ) (engine : Engine σ) (text : String)
    (session : Session σ) :
    (∃ stop, evaluate host engine text session = .error stop session ∧
        ∀ read tokens after, lex text = .ok read →
          substitute host (markCalls read) session ≠ .ok tokens after) ∨
      ∃ read tokens history, lex text = .ok read ∧
        substitute host (markCalls read) session = .ok tokens session ∧
        tokens.filterMap Token.callName? = siteNames read ∧
        CallsInsideOut engine session tokens history (evaluate host engine text session) := by
  rcases lexed : lex text with stop | (_ | ⟨first, rest⟩)
  · refine .inl ⟨stop, ?_, by rintro _ _ _ ⟨⟩⟩
    simp only [evaluate, lexed]
    rfl
  · refine .inr ⟨[], [], [], rfl, rfl, rfl, ?_⟩
    simp only [evaluate, lexed]
    exact callsInsideOut_of_stop engine session [] _
  · have unmarked (name : String) := lex_ne_call lexed name
    have prepared := substitute_meets host (markCalls (first :: rest)) session
    simp only [evaluate, lexed]
    cases substituted : substitute host (markCalls (first :: rest)) session with
    | error stop after =>
      rw [substituted] at prepared
      obtain rfl : after = session := prepared
      refine .inl ⟨stop, bind_error substituted, ?_⟩
      rintro _ tokens later ⟨⟩
      rw [substituted]
      rintro ⟨⟩
    | ok tokens after =>
      rw [substituted] at prepared
      obtain ⟨rfl, names_eq⟩ : after = session ∧ _ := prepared
      have opened := callsOpen_substitute (callsOpen_markCalls unmarked) substituted
      obtain ⟨history, calls⟩ := reduce_callsInsideOut engine text opened after
      rw [bind_ok substituted]
      exact .inr ⟨_, tokens, history, rfl, substituted,
        names_eq.trans (callNames_markCalls unmarked), calls⟩

end Vimlet
