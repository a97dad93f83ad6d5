import Vimlet.Proofs.Expr.Redex

/-!
# The history of a reduction

Each action of a reduction belongs to one token of the expression, its place. At any time a value
stands for a stretch of the tokens at the start, and is what the actions so far have made of the
syntax tree of that stretch.
-/

namespace Vimlet

open Reduce List

variable {σ : Type}

/-! ### Occurrences -/

/-- An action that was performed. -/
structure Occurrence (σ : Type) where
  /-- The position of the token that it belongs to: a name, an operator or an opening bracket. -/
  place : Nat
  action : Action
  ending : Ending σ Value

/-- The actions of a reduction, in the order in which they were performed. -/
abbrev History (σ : Type) := List (Occurrence σ)

/-- The actions of a history are performed in a row from a session on, and nothing else is done
until the ending. Only the last one may fail. -/
def Accounts (engine : Engine σ) : Session σ → History σ → Ending σ Value → Prop
  | session, [], ending => left ending = session
  | session, occurrence :: later, ending =>
    occurrence.action.perform engine session = occurrence.ending ∧
      match occurrence.ending with
      | .ok _ after => Accounts engine after later ending
      | .error stop after => later = [] ∧ ending = .error stop after

/-- All actions of a history give values, and lead from one session to another. -/
inductive Course (engine : Engine σ) : Session σ → History σ → Session σ → Prop where
  | nil (session : Session σ) : Course engine session [] session
  | cons {session between last history} (place : Nat) {action value}
      (performed : action.perform engine session = .ok value between)
      (later : Course engine between history last) :
      Course engine session (⟨place, action, .ok value between⟩ :: history) last

namespace Course

variable {engine : Engine σ} {start session : Session σ} {history : History σ}

theorem snoc (course : Course engine start history session) (place : Nat) {action value after}
    (performed : action.perform engine session = .ok value after) :
    Course engine start (history ++ [⟨place, action, .ok value after⟩]) after := by
  induction course with
  | nil session => exact .cons place performed (.nil after)
  | cons place first _ ih => exact .cons place first (ih performed)

theorem accounts (course : Course engine start history session) {more ending}
    (rest : Accounts engine session more ending) :
    Accounts engine start (history ++ more) ending := by
  induction course with
  | nil session => exact rest
  | cons place first _ ih => exact ⟨first, ih rest⟩

end Course

/-- An action at a place gave a value. -/
def Made (history : History σ) (place : Nat) (action : Action) (value : Value) : Prop :=
  ∃ after, ⟨place, action, .ok value after⟩ ∈ history

theorem Made.append {history place action value} (made : Made history place action value)
    (more : History σ) : Made (history ++ more) place action value := by
  obtain ⟨after, mem⟩ := made
  exact ⟨after, mem_append_left more mem⟩

theorem made_last (history : History σ) (place : Nat) (action : Action) (value : Value)
    (after : Session σ) :
    Made (history ++ [⟨place, action, .ok value after⟩]) place action value :=
  ⟨after, by simp⟩

/-- No action has had this place. -/
def Untouched (history : History σ) (place : Nat) : Prop :=
  ∀ occurrence ∈ history, occurrence.place ≠ place

theorem untouched_nil (place : Nat) : Untouched ([] : History σ) place := forall_mem_nil _

/-- No action has had a place in this range. -/
def Avoids (history : History σ) (first last : Nat) : Prop :=
  ∀ occurrence ∈ history, occurrence.place < first ∨ last ≤ occurrence.place

namespace Avoids

variable {history extra : History σ} {first last place : Nat}

theorem within (avoids : Avoids extra first last) {first' last'} (starts : first ≤ first')
    (ends : last' ≤ last) : Avoids extra first' last' :=
  fun occurrence mem => (avoids occurrence mem).imp starts.trans_lt' ends.trans

theorem untouched (avoids : Avoids extra first last) (starts : first ≤ place) (ends : place < last)
    (before : Untouched history place) : Untouched (history ++ extra) place := by
  intro occurrence mem
  obtain old | new := mem_append.mp mem
  · exact before occurrence old
  · have apart := avoids occurrence new
    omega

end Avoids

/-! ### Values of trees -/

/-- The result of a phrase that starts at a place, if actions at the places of its operations gave
these values. -/
def Tree.Computes (made : Nat → Action → Value → Prop) :
    {phrase : Phrase} → Tree phrase → Nat → phrase.Result → Prop
  | _, .value v, _, result => result = v
  | _, .paren inner, place, result => inner.Computes made (place + 1) result
  | _, .list items, place, result => ∃ values, items.Computes made (place + 1) values ∧
      made place (.list values) result
  | _, .object entries, place, result => ∃ values, entries.Computes made (place + 1) values ∧
      made place (.object values) result
  | _, .call name args, place, result => ∃ values, args.Computes made (place + 2) values ∧
      made place (.call name values) result
  | _, .apply function args, place, result => ∃ ref values,
      function.Computes made place (.function ref) ∧
      args.Computes made (place + function.tokens.length + 1) values ∧
      made (place + function.tokens.length) (.apply ref values) result
  | _, .index base key, place, result => ∃ a b, base.Computes made place a ∧
      key.Computes made (place + base.tokens.length + 1) b ∧
      made (place + base.tokens.length) (.index a b) result
  | _, .slice base first last, place, result => ∃ a b c, base.Computes made place a ∧
      first.Computes made (place + base.tokens.length + 1) b ∧
      last.Computes made (place + base.tokens.length + 1 + first.tokens.length + 1) c ∧
      made (place + base.tokens.length) (.slice a (b.getD .nil) (c.getD .nil)) result
  | _, .operand inner, place, result => inner.Computes made place result
  | _, .unary symbol _ inner, place, result => ∃ a, inner.Computes made (place + 1) a ∧
      made place (.unary symbol a) result
  | _, .binary symbol _ _ left right, place, result => ∃ a b, left.Computes made place a ∧
      right.Computes made (place + left.tokens.length + 1) b ∧
      made (place + left.tokens.length) (.binary symbol a b) result
  | _, .missing _, _, result => result = none
  | _, .item inner, place, result => ∃ v, inner.Computes made place v ∧ result = some v
  | _, .entry key content, place, result => ∃ a b, key.Computes made place a ∧
      content.Computes made (place + key.tokens.length + 1) b ∧ result = some (a, b)
  | _, .lastPart part, place, results => ∃ result, part.Computes made place result ∧
      results = result.toList
  | _, .moreParts part rest, place, results => ∃ result later, part.Computes made place result ∧
      rest.Computes made (place + part.tokens.length + 1) later ∧ results = result.toList ++ later
  | _, .noArguments, _, results => results = []
  | _, .arguments args, place, results => args.Computes made place results
  | _, .lastArgument argument, place, results => ∃ v, argument.Computes made place v ∧
      results = [v]
  | _, .moreArguments argument rest, place, results => ∃ v later,
      argument.Computes made place v ∧
      rest.Computes made (place + argument.tokens.length + 1) later ∧ results = v :: later

theorem Tree.Computes.mono {made more : Nat → Action → Value → Prop}
    (weaken : ∀ place action value, made place action value → more place action value) {phrase}
    {tree : Tree phrase} {place result} (computes : tree.Computes made place result) :
    tree.Computes more place result := by
  induction tree generalizing place with
  | value | missing | noArguments => exact computes
  | paren _ ih | operand _ ih | arguments _ ih => exact ih computes
  | list _ ih | object _ ih | call _ _ ih | unary _ _ _ ih =>
    obtain ⟨values, parts, root⟩ := computes
    exact ⟨values, ih parts, weaken _ _ _ root⟩
  | apply _ _ first_ih second_ih | index _ _ first_ih second_ih
  | binary _ _ _ _ _ first_ih second_ih =>
    obtain ⟨a, b, first, second, root⟩ := computes
    exact ⟨a, b, first_ih first, second_ih second, weaken _ _ _ root⟩
  | slice _ _ _ base_ih first_ih last_ih =>
    obtain ⟨a, b, c, base, first, last, root⟩ := computes
    exact ⟨a, b, c, base_ih base, first_ih first, last_ih last, weaken _ _ _ root⟩
  | item _ ih | lastPart _ ih | lastArgument _ ih =>
    obtain ⟨v, inner, same⟩ := computes
    exact ⟨v, ih inner, same⟩
  | entry _ _ first_ih second_ih | moreParts _ _ first_ih second_ih
  | moreArguments _ _ first_ih second_ih =>
    obtain ⟨a, b, first, second, same⟩ := computes
    exact ⟨a, b, first_ih first, second_ih second, same⟩

theorem Tree.Computes.append {history phrase} {tree : Tree phrase} {place result}
    (computes : tree.Computes (Made history) place result) (more : History σ) :
    tree.Computes (Made (history ++ more)) place result :=
  computes.mono fun _ _ _ made => made.append more

/-! ### What remains of the tokens -/

/-- What remains, from a place on, of other tokens after a history. A value is what the history
computes for an expression, an operand if a bracket continues it; any other token stands for itself.
-/
inductive Remains (history : History σ) : Nat → List Token → List Token → Prop where
  | nil (place : Nat) : Remains history place [] []
  | val {place rest original} (value : Value) (tree : Tree .expression)
      (computes : tree.Computes (Made history) place value)
      (operand : continuesOperand rest = true → ∃ inner, tree = .operand inner)
      (later : Remains history (place + tree.tokens.length) rest original) :
      Remains history place (.val value :: rest) (tree.tokens ++ original)
  | other {place rest original} (token : Token) (unvalued : token.value? = none)
      (opened : ∀ name, token = .call name → rest.head? = some (.op .leftParen))
      (untouched : Untouched history place) (later : Remains history (place + 1) rest original) :
      Remains history place (token :: rest) (token :: original)

namespace Remains

variable {history : History σ} {place : Nat} {rest original : List Token}
variable {tokens after : List Token} {symbol : Op} {element : Element}

theorem move {place'} (remains : Remains history place rest original) (same : place = place') :
    Remains history place' rest original := same ▸ remains

/-- At the start every token stands for itself. -/
theorem of_callsOpen (opened : callsOpen tokens = true) (place : Nat) :
    Remains ([] : History σ) place tokens tokens := by
  fun_induction callsOpen tokens generalizing place with
  | case1 => exact .nil place
  | case2 name rest ih =>
    exact .other _ rfl (fun _ _ => rfl) (untouched_nil _)
      (.other _ rfl (by rintro _ ⟨⟩) (untouched_nil _) (ih opened _))
  | case3 => cases opened
  | case4 token rest _ not_call ih =>
    cases token with
    | val value => exact .val value (.operand (.value value)) rfl (fun _ => ⟨_, rfl⟩) (ih opened _)
    | op _ | var _ => exact .other _ rfl (by rintro _ ⟨⟩) (untouched_nil _) (ih opened _)
    | call name => exact (not_call name rfl).elim

theorem val_inv {value} (remains : Remains history place (.val value :: rest) original) :
    ∃ (tree : Tree .expression) (later : List Token), original = tree.tokens ++ later ∧
      tree.Computes (Made history) place value ∧
      (continuesOperand rest = true → ∃ inner, tree = .operand inner) ∧
      Remains history (place + tree.tokens.length) rest later := by
  cases remains with
  | val _ tree computes operand later => exact ⟨tree, _, rfl, computes, operand, later⟩
  | other _ unvalued => cases unvalued

theorem op_inv (remains : Remains history place (.op symbol :: rest) original) :
    ∃ later, original = .op symbol :: later ∧ Untouched history place ∧
      Remains history (place + 1) rest later := by
  cases remains with
  | other _ _ _ untouched later => exact ⟨_, rfl, untouched, later⟩

theorem call_inv {name} (remains : Remains history place (.call name :: rest) original) :
    ∃ later, original = .call name :: later ∧ rest.head? = some (.op .leftParen) ∧
      Untouched history place ∧ Remains history (place + 1) rest later := by
  cases remains with
  | other _ _ opened untouched later => exact ⟨_, rfl, opened name rfl, untouched, later⟩

/-- Actions at other places leave what remains. -/
theorem extend {extra} (avoids : Avoids extra place (place + original.length))
    (remains : Remains history place rest original) :
    Remains (history ++ extra) place rest original := by
  induction remains with
  | nil place => exact .nil place
  | val value tree computes operand later ih =>
    rw [length_append] at avoids
    refine .val value tree (computes.append extra) operand ?_
    exact ih (avoids.within (by omega) (by omega))
  | other token unvalued opened untouched later ih =>
    rw [length_cons] at avoids
    refine .other token unvalued opened (avoids.untouched le_rfl (by omega) untouched) ?_
    exact ih (avoids.within (by omega) (by omega))

/-- What remains divides behind any tokens, and a value may take the place of the second part,
unless that is the parenthesis of a call. -/
theorem behind {front current}
    (apart : ∀ name, front.getLast? = some (.call name) → current.head? ≠ some (.op .leftParen))
    (remains : Remains history place (front ++ current) original) :
    ∃ passed later, original = passed ++ later ∧
      Remains history (place + passed.length) current later ∧
      ∀ extra value after, Avoids extra place (place + passed.length) →
        Remains (history ++ extra) (place + passed.length) (.val value :: after) later →
        Remains (history ++ extra) place (front ++ .val value :: after) original := by
  induction front generalizing place original with
  | nil => exact ⟨[], original, rfl, remains, fun _ _ _ _ next => next⟩
  | cons token front ih =>
    have front_apart : ∀ name, front.getLast? = some (.call name) →
        current.head? ≠ some (.op .leftParen) := by
      intro name last
      refine apart name ?_
      rw [getLast?_cons, last]
      rfl
    cases remains with
    | val _ tree computes operand next =>
      obtain ⟨passed, later, rfl, current_remains, rebuild⟩ := ih front_apart next
      refine ⟨tree.tokens ++ passed, later, by simp, ?_, fun extra value after avoids ends => ?_⟩
      · rwa [length_append, ← Nat.add_assoc]
      · rw [length_append, ← Nat.add_assoc] at avoids ends
        refine .val _ tree (computes.append extra) ?_
          (rebuild extra value after (avoids.within (by omega) le_rfl) ends)
        -- only the next token decides whether this value must be an operand
        intro continues
        cases front with
        | nil => cases continues
        | cons second front => cases second <;> exact operand continues
    | other _ unvalued opened untouched next =>
      obtain ⟨passed, later, rfl, current_remains, rebuild⟩ := ih front_apart next
      refine ⟨token :: passed, later, rfl, ?_, fun extra value after avoids ends => ?_⟩
      · exact current_remains.move (by rw [length_cons]; omega)
      · rw [length_cons, Nat.add_comm passed.length, ← Nat.add_assoc] at avoids ends
        refine .other token unvalued ?_ (avoids.untouched le_rfl (by omega) untouched)
          (rebuild extra value after (avoids.within (by omega) le_rfl) ends)
        -- a call stays before its parenthesis, since that is not what the value replaces
        intro name is_call
        have opens := opened name is_call
        cases front with
        | nil => exact absurd opens (apart name (by rw [is_call]; rfl))
        | cons second front => exact opens

/-! ### Parts of the expression -/

theorem argumentsFrom {args} (read : argumentsFrom? tokens = some (args, after))
    (remains : Remains history place tokens original) :
    ∃ (tree : Tree .someArguments) (later : List Token),
      original = tree.tokens ++ .op .rightParen :: later ∧
      tree.Computes (Made history) place args ∧
      Remains history (place + tree.tokens.length + 1) after later := by
  fun_induction argumentsFrom? tokens generalizing args after original place with
  | case1 value rest =>
    cases read
    obtain ⟨tree, _, rfl, computes, _, next⟩ := remains.val_inv
    obtain ⟨later, rfl, _, last⟩ := next.op_inv
    exact ⟨.lastArgument tree, later, rfl, ⟨value, computes, rfl⟩, last⟩
  | case2 value rest ih =>
    obtain ⟨⟨values, after'⟩, read_rest, ⟨⟩⟩ := Option.map_eq_some_iff.mp read
    obtain ⟨tree, _, rfl, computes, _, next⟩ := remains.val_inv
    obtain ⟨_, rfl, _, others⟩ := next.op_inv
    obtain ⟨args, later, rfl, others_compute, last⟩ := ih read_rest others
    refine ⟨.moreArguments tree args, later, by simp [Tree.tokens],
      ⟨value, values, computes, others_compute, rfl⟩, ?_⟩
    exact last.move (by simp [Tree.tokens]; omega)
  | case3 => cases read

theorem arguments {args} (read : arguments? tokens = some (args, after))
    (remains : Remains history place tokens original) :
    ∃ (tree : Tree .arguments) (later : List Token),
      original = tree.tokens ++ .op .rightParen :: later ∧
      tree.Computes (Made history) place args ∧
      Remains history (place + tree.tokens.length + 1) after later := by
  unfold arguments? at read
  split at read
  · cases read
    obtain ⟨later, rfl, _, last⟩ := remains.op_inv
    exact ⟨.noArguments, later, rfl, rfl, last⟩
  · obtain ⟨args, later, rfl, computes, last⟩ := remains.argumentsFrom read
    exact ⟨.arguments args, later, rfl, computes, last⟩

theorem part {result}
    (remains : Remains history place ((result.map element.tokens).getD [] ++ .op symbol :: after)
      original) :
    ∃ (tree : Tree (.part element)) (later : List Token),
      original = tree.tokens ++ .op symbol :: later ∧
      tree.Computes (Made history) place result ∧
      Remains history (place + tree.tokens.length + 1) after later := by
  cases result with
  | none =>
    obtain ⟨later, rfl, _, last⟩ := remains.op_inv
    exact ⟨.missing element, later, rfl, rfl, last⟩
  | some result =>
    cases element with
    | item =>
      obtain ⟨tree, _, rfl, computes, _, next⟩ := remains.val_inv
      obtain ⟨later, rfl, _, last⟩ := next.op_inv
      exact ⟨.item tree, later, rfl, ⟨result, computes, rfl⟩, last⟩
    | entry =>
      obtain ⟨a, b⟩ := result
      obtain ⟨key, _, rfl, key_computes, _, next⟩ := remains.val_inv
      obtain ⟨_, rfl, _, right⟩ := next.op_inv
      obtain ⟨content, _, rfl, content_computes, _, next⟩ := right.val_inv
      obtain ⟨later, rfl, _, last⟩ := next.op_inv
      refine ⟨.entry key content, later, by simp [Tree.tokens],
        ⟨a, b, key_computes, content_computes, rfl⟩, ?_⟩
      exact last.move (by simp [Tree.tokens]; omega)

theorem exists_part {part} (part_ok : part = [] ∨ element.form part) :
    ∃ result : Option element.Result, part = (result.map element.tokens).getD [] := by
  obtain rfl | formed := part_ok
  · exact ⟨none, rfl⟩
  · cases element with
    | item =>
      obtain ⟨value, rfl⟩ := formed
      exact ⟨some value, rfl⟩
    | entry =>
      obtain ⟨key, value, rfl⟩ := formed
      exact ⟨some (key, value), rfl⟩

theorem parts {inside values} (divided : Divided element.form inside)
    (read : (Reduce.parts inside).mapM element.read? = some values)
    (remains : Remains history place (inside ++ .op symbol :: after) original) :
    ∃ (tree : Tree (.parts element)) (later : List Token),
      original = tree.tokens ++ .op symbol :: later ∧
      tree.Computes (Made history) place values ∧
      Remains history (place + tree.tokens.length + 1) after later := by
  induction divided generalizing values place original with
  | last part_ok =>
    obtain ⟨result, rfl⟩ := exists_part part_ok
    rw [mapM_parts_part] at read
    cases read
    obtain ⟨part, later, rfl, computes, last⟩ := remains.part
    exact ⟨.lastPart part, later, rfl, ⟨result, computes, rfl⟩, last⟩
  | more part_ok _ ih =>
    obtain ⟨result, rfl⟩ := exists_part part_ok
    rw [mapM_parts_comma] at read
    obtain ⟨others, read_rest, rfl⟩ := Option.map_eq_some_iff.mp read
    rw [append_assoc, cons_append] at remains
    obtain ⟨part, _, rfl, computes, next⟩ := remains.part
    obtain ⟨rest, later, rfl, others_compute, last⟩ := ih read_rest next
    refine ⟨.moreParts part rest, later, by simp [Tree.tokens],
      ⟨result, others, computes, others_compute, rfl⟩, ?_⟩
    exact last.move (by simp [Tree.tokens]; omega)

theorem paren {value}
    (remains : Remains history place (.op .leftParen :: .val value :: .op .rightParen :: after)
      original) : Remains history place (.val value :: after) original := by
  obtain ⟨_, rfl, _, next⟩ := remains.op_inv
  obtain ⟨inner, _, rfl, computes, _, next⟩ := next.val_inv
  obtain ⟨later, rfl, _, last⟩ := next.op_inv
  have whole := Remains.val value (.operand (.paren inner)) computes (fun _ => ⟨_, rfl⟩)
    (last.move (by simp [Tree.tokens]; omega))
  simpa [Tree.tokens] using whole

end Remains

/-! ### Actions that can be performed -/

/-- An action can be performed at the start of what remains. It belongs to a tree whose parts are
all computed. -/
structure Ready (history : History σ) (place : Nat) (original : List Token) (action : Action)
    (after : List Token) (tree : Tree .expression) (site : Nat) (later : List Token) : Prop where
  original_eq : original = tree.tokens ++ later := by simp [Tree.tokens]
  inside : place ≤ site ∧ site < place + tree.tokens.length := by simp [Tree.tokens]
  untouched : Untouched history site
  operand : continuesOperand after = true → ∃ inner, tree = .operand inner := by
    exact fun _ => ⟨_, rfl⟩
  computes (value : Value) (session : Session σ) :
    tree.Computes (Made (history ++ [⟨site, action, .ok value session⟩])) place value
  remains : Remains history (place + tree.tokens.length) after later
  /-- A call has the arguments that were computed for it. -/
  called (name : String) (args : List Value) (same : action = .call name args) :
    site = place ∧ ∃ (inside : Tree .arguments) (back : List Token),
      original = .call name :: .op .leftParen :: (inside.tokens ++ .op .rightParen :: back) ∧
      inside.Computes (Made history) (place + 2) args := by rintro _ _ ⟨⟩

/-- The value that an action gives takes the place of its tree. -/
theorem Ready.contract {history place site original after later action tree}
    (ready : Ready history place original action after tree site later) (value : Value)
    (session : Session σ) :
    Remains (history ++ [⟨site, action, .ok value session⟩]) place (.val value :: after)
      original := by
  have avoids : Avoids [⟨site, action, .ok value session⟩] (place + tree.tokens.length)
      (place + tree.tokens.length + later.length) := by
    intro occurrence mem
    obtain rfl := mem_singleton.mp mem
    exact .inl ready.inside.2
  rw [ready.original_eq]
  exact .val value tree (ready.computes value session) ready.operand (ready.remains.extend avoids)

/-- Tokens with an action at their start, and the tokens behind it. -/
def Performable (tokens : List Token) (action : Action) (after : List Token) : Prop :=
  ∀ {σ : Type} (history : History σ) (place : Nat) (original : List Token),
    Remains history place tokens original →
    ∃ tree site later, Ready history place original action after tree site later

section Performable

variable {rest after : List Token} {args : List Value}

theorem performable_call {name token} (read : arguments? rest = some (args, after)) :
    Performable (.call name :: token :: rest) (.call name args) after := by
  intro σ history place original remains
  obtain ⟨_, rfl, ⟨⟩, untouched, next⟩ := remains.call_inv
  obtain ⟨_, rfl, _, next⟩ := next.op_inv
  obtain ⟨inside, later, rfl, computes, last⟩ := next.arguments read
  refine ⟨.operand (.call name inside), place, later, ?_⟩
  exact {
    untouched
    computes := fun value session => ⟨args, computes.append _, made_last ..⟩
    remains := last.move (by simp [Tree.tokens]; omega)
    called := by
      rintro _ _ ⟨⟩
      exact ⟨rfl, inside, later, rfl, computes⟩ }

theorem performable_apply {function} (read : arguments? rest = some (args, after)) :
    Performable (.val (.function function) :: .op .leftParen :: rest) (.apply function args)
      after := by
  intro σ history place original remains
  obtain ⟨_, _, rfl, function_computes, operand, next⟩ := remains.val_inv
  obtain ⟨function_tree, rfl⟩ := operand rfl
  obtain ⟨_, rfl, untouched, next⟩ := next.op_inv
  obtain ⟨inside, later, rfl, computes, last⟩ := next.arguments read
  refine ⟨.operand (.apply function_tree inside), place + function_tree.tokens.length, later, ?_⟩
  exact {
    untouched
    computes := fun value session =>
      ⟨function, args, function_computes.append _, computes.append _, made_last ..⟩
    remains := last.move (by simp [Tree.tokens]; omega) }

theorem performable_list {inside items} (split : splitAt? .rightBracket rest = some (inside, after))
    (all : (parts inside).mapM item? = some items) :
    Performable (.op .leftBracket :: rest) (.list items) after := by
  intro σ history place original remains
  obtain ⟨_, rfl, untouched, next⟩ := remains.op_inv
  rw [splitAt?_eq split] at next
  obtain ⟨tree, later, rfl, computes, last⟩ := next.parts (divided_of_items all) all
  refine ⟨.operand (.list tree), place, later, ?_⟩
  exact {
    untouched
    computes := fun value session => ⟨items, computes.append _, made_last ..⟩
    remains := last.move (by simp [Tree.tokens]; omega) }

theorem performable_object {inside entries}
    (split : splitAt? .rightBrace rest = some (inside, after))
    (all : (parts inside).mapM entry? = some entries) :
    Performable (.op .leftBrace :: rest) (.object entries) after := by
  intro σ history place original remains
  obtain ⟨_, rfl, untouched, next⟩ := remains.op_inv
  rw [splitAt?_eq split] at next
  obtain ⟨tree, later, rfl, computes, last⟩ := next.parts (divided_of_entries all) all
  refine ⟨.operand (.object tree), place, later, ?_⟩
  exact {
    untouched
    computes := fun value session => ⟨entries, computes.append _, made_last ..⟩
    remains := last.move (by simp [Tree.tokens]; omega) }

theorem performable_index (base key : Value) (after : List Token) :
    Performable (.val base :: .op .leftBracket :: .val key :: .op .rightBracket :: after)
      (.index base key) after := by
  intro σ history place original remains
  obtain ⟨_, _, rfl, base_computes, operand, next⟩ := remains.val_inv
  obtain ⟨base_tree, rfl⟩ := operand rfl
  obtain ⟨_, rfl, untouched, next⟩ := next.op_inv
  obtain ⟨key_tree, _, rfl, key_computes, _, next⟩ := next.val_inv
  obtain ⟨later, rfl, _, last⟩ := next.op_inv
  refine ⟨.operand (.index base_tree key_tree), place + base_tree.tokens.length, later, ?_⟩
  exact {
    untouched
    computes := fun value session =>
      ⟨base, key, base_computes.append _, key_computes.append _, made_last ..⟩
    remains := last.move (by simp [Tree.tokens]; omega) }

theorem performable_slice (base : Value) (first last : Option Value) (after : List Token) :
    Performable
      (.val base :: .op .leftBracket ::
        (boundTokens first ++ .op .colon :: (boundTokens last ++ .op .rightBracket :: after)))
      (.slice base (first.getD .nil) (last.getD .nil)) after := by
  intro σ history place original remains
  obtain ⟨_, _, rfl, base_computes, operand, next⟩ := remains.val_inv
  obtain ⟨base_tree, rfl⟩ := operand rfl
  obtain ⟨_, rfl, untouched, next⟩ := next.op_inv
  rw [boundTokens_eq, boundTokens_eq] at next
  obtain ⟨lower, _, rfl, lower_computes, next⟩ := next.part
  obtain ⟨upper, later, rfl, upper_computes, ends⟩ := next.part
  refine ⟨.operand (.slice base_tree lower upper), place + base_tree.tokens.length, later, ?_⟩
  exact {
    untouched
    computes := fun value session =>
      ⟨base, first, last, base_computes.append _, lower_computes.append _,
        upper_computes.append _, made_last ..⟩
    remains := ends.move (by simp [Tree.tokens]; omega) }

theorem performable_unary {symbol} (isUnary : symbol.isUnary = true) (operand : Value)
    (ends : continuesOperand after = false) :
    Performable (.op symbol :: .val operand :: after) (.unary symbol operand) after := by
  intro σ history place original remains
  obtain ⟨_, rfl, untouched, next⟩ := remains.op_inv
  obtain ⟨inner, later, rfl, computes, _, last⟩ := next.val_inv
  refine ⟨.unary symbol isUnary inner, place, later, ?_⟩
  exact {
    untouched
    operand := fun continues => by simp [ends] at continues
    computes := fun value session => ⟨operand, computes.append _, made_last ..⟩
    remains := last.move (by simp [Tree.tokens]; omega) }

theorem performable_binary {symbol precedence} (isBinary : symbol.precedence? = some precedence)
    (a b : Value) (ends : continuesOperand after = false) :
    Performable (.val a :: .op symbol :: .val b :: after) (.binary symbol a b) after := by
  intro σ history place original remains
  obtain ⟨left, _, rfl, left_computes, _, next⟩ := remains.val_inv
  obtain ⟨_, rfl, untouched, next⟩ := next.op_inv
  obtain ⟨right, later, rfl, right_computes, _, last⟩ := next.val_inv
  refine ⟨.binary symbol precedence isBinary left right, place + left.tokens.length, later, ?_⟩
  exact {
    untouched
    operand := fun continues => by simp [ends] at continues
    computes := fun value session =>
      ⟨a, b, left_computes.append _, right_computes.append _, made_last ..⟩
    remains := last.move (by simp [Tree.tokens]; omega) }

end Performable

end Vimlet
