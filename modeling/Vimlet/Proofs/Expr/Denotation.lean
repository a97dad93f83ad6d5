import Vimlet.Proofs.Expr.Operation

/-!
# The value of a syntax tree

A tree without calls is evaluated from its leaves to its root, while its tokens are reduced in
another order. `Denotes` says of a tree with values at its leaves that its result is the one that
the whole evaluation has found.
-/

namespace Vimlet

open Reduce Run Option

variable {σ : Type}
variable {start : Session σ} {right heap : Heap} {phrase : Phrase} {related : Value → Value → Prop}
  {v : Value} {element : Element} {act : Run σ Value}

/-! ### Evaluation -/

abbrev Element.Result : Element → Type
  | .item => Value
  | .entry => Value × Value

abbrev Phrase.Result : Phrase → Type
  | .operand | .expression => Value
  | .part element => Option element.Result
  | .parts element => List element.Result
  | .arguments | .someArguments => List Value

namespace Tree

/-- Evaluates a tree from its leaves to its root. It must hold no calls. -/
def evaluate : {phrase : Phrase} → Tree phrase → Run σ phrase.Result
  | _, value v => return v
  | _, paren inner => inner.evaluate
  | _, list items => do onHeap (Mem.newList (← items.evaluate))
  | _, object entries => do makeObject (← entries.evaluate)
  | _, index base key => do
    let base ← base.evaluate
    let key ← key.evaluate
    onHeap (Mem.index base key)
  | _, slice base first last => do
    let base ← base.evaluate
    let first ← first.evaluate
    let last ← last.evaluate
    onHeap (Mem.slice base (first.getD .nil) (last.getD .nil))
  | _, operand inner => inner.evaluate
  | _, unary symbol _ inner => do applyUnary symbol (← inner.evaluate)
  | _, binary symbol _ _ left right => do
    let a ← left.evaluate
    let b ← right.evaluate
    applyBinary symbol a b
  | _, missing _ => return none
  | _, item inner => do return some (← inner.evaluate)
  | _, entry key content => do
    let key ← key.evaluate
    let content ← content.evaluate
    return some (key, content)
  | _, lastPart part => do return (← part.evaluate).toList
  | _, moreParts part rest => do
    let part ← part.evaluate
    let rest ← rest.evaluate
    return part.toList ++ rest
  | _, call _ _ | _, apply _ _ | _, noArguments | _, arguments _ | _, lastArgument _
  | _, moreArguments _ _ => throw .internal

/-- How tight the outermost operator of a phrase binds: binary ones by precedence, unary ones
tighter, operands the tightest. -/
def level : {phrase : Phrase} → Tree phrase → Nat
  | _, binary _ precedence _ _ _ => precedence
  | _, unary _ _ _ => 5
  | _, missing _ | _, item _ | _, entry _ _ | _, lastPart _ | _, moreParts _ _ => 0
  | _, _ => 6

/-- A phrase without calls, with parentheses wherever precedence and association to the left require
them. -/
def Grouped : {phrase : Phrase} → Tree phrase → Prop
  | _, value _ | _, missing _ => True
  | _, paren inner | _, operand inner | _, item inner => inner.Grouped
  | _, list items => items.Grouped
  | _, object entries => entries.Grouped
  | _, index base key => base.Grouped ∧ key.Grouped
  | _, slice base first last => base.Grouped ∧ first.Grouped ∧ last.Grouped
  | _, unary _ _ inner => 5 ≤ inner.level ∧ inner.Grouped
  | _, binary _ precedence _ left right =>
    precedence ≤ left.level ∧ precedence < right.level ∧ left.Grouped ∧ right.Grouped
  | _, entry key content => key.Grouped ∧ content.Grouped
  | _, lastPart part => part.Grouped
  | _, moreParts part rest => part.Grouped ∧ rest.Grouped
  | _, call _ _ | _, apply _ _ | _, noArguments | _, arguments _ | _, lastArgument _
  | _, moreArguments _ _ => False

/-- Every value at a leaf is one of the heap. -/
def LeavesIn (heap : Heap) : {phrase : Phrase} → Tree phrase → Prop
  | _, value v => v.In heap
  | _, missing _ => True
  | _, paren inner | _, operand inner | _, item inner | _, unary _ _ inner => inner.LeavesIn heap
  | _, list items => items.LeavesIn heap
  | _, object entries => entries.LeavesIn heap
  | _, index base key => base.LeavesIn heap ∧ key.LeavesIn heap
  | _, slice base first last =>
    base.LeavesIn heap ∧ first.LeavesIn heap ∧ last.LeavesIn heap
  | _, binary _ _ _ left right => left.LeavesIn heap ∧ right.LeavesIn heap
  | _, entry key content => key.LeavesIn heap ∧ content.LeavesIn heap
  | _, lastPart part => part.LeavesIn heap
  | _, moreParts part rest => part.LeavesIn heap ∧ rest.LeavesIn heap
  | _, call _ _ | _, apply _ _ | _, noArguments | _, arguments _ | _, lastArgument _
  | _, moreArguments _ _ => False

/-- The result of a phrase in which nothing is left to compute. -/
def settled? : {phrase : Phrase} → Tree phrase → Option phrase.Result
  | _, value v => some v
  | _, operand inner => inner.settled?
  | _, missing _ => some none
  | _, item inner => inner.settled?.map some
  | _, entry key content => do return some (← key.settled?, ← content.settled?)
  | _, lastPart part => part.settled?.map toList
  | _, moreParts part rest => do return (← part.settled?).toList ++ (← rest.settled?)
  | _, _ => none

end Tree

/-! ### Denotations -/

/-- The evaluation begun in session `start` gives this result and heap for a tree with values of the
heap `right` as leaves. -/
def Denotes (start : Session σ) (right : Heap) :
    {phrase : Phrase} → Tree phrase → Heap → phrase.Result → Prop
  | _, .value w, heap, v => start.heap.Grows heap ∧ Correspond start.heap heap right v w
  | _, .paren inner, heap, v => Denotes start right inner heap v
  | _, .operand inner, heap, v => Denotes start right inner heap v
  | _, .list items, heap, v => ∃ middle values, Denotes start right items middle values ∧
      onHeap (Mem.newList values) (start.withHeap middle) = .ok v (start.withHeap heap)
  | _, .object entries, heap, v => ∃ middle values, Denotes start right entries middle values ∧
      makeObject values (start.withHeap middle) = .ok v (start.withHeap heap)
  | _, .index base key, heap, v => ∃ middle a later b, Denotes start right base middle a ∧
      Denotes start right key later b ∧ middle.Grows later ∧
      onHeap (Mem.index a b) (start.withHeap later) = .ok v (start.withHeap heap)
  | _, .slice base first last, heap, v => ∃ middle a between b later c,
      Denotes start right base middle a ∧ Denotes start right first between b ∧
      Denotes start right last later c ∧ middle.Grows between ∧ between.Grows later ∧
      onHeap (Mem.slice a (b.getD .nil) (c.getD .nil)) (start.withHeap later) =
        .ok v (start.withHeap heap)
  | _, .unary symbol _ inner, heap, v => ∃ middle a, Denotes start right inner middle a ∧
      applyUnary symbol a (start.withHeap middle) = .ok v (start.withHeap heap)
  | _, .binary symbol _ _ first second, heap, v => ∃ middle a later b,
      Denotes start right first middle a ∧ Denotes start right second later b ∧
      middle.Grows later ∧
      applyBinary symbol a b (start.withHeap later) = .ok v (start.withHeap heap)
  | _, .missing _, heap, result => start.heap.Grows heap ∧ result = none
  | _, .item inner, heap, result => ∃ v, Denotes start right inner heap v ∧ result = some v
  | _, .entry key content, heap, result => ∃ middle a b, Denotes start right key middle a ∧
      Denotes start right content heap b ∧ middle.Grows heap ∧ result = some (a, b)
  | _, .lastPart part, heap, results => ∃ result, Denotes start right part heap result ∧
      results = result.toList
  | _, .moreParts part rest, heap, results => ∃ middle result later,
      Denotes start right part middle result ∧ Denotes start right rest heap later ∧
      middle.Grows heap ∧ results = result.toList ++ later
  | _, .call _ _, _, _ | _, .apply _ _, _, _ | _, .noArguments, _, _ | _, .arguments _, _, _
  | _, .lastArgument _, _, _ | _, .moreArguments _ _, _, _ => False

namespace Denotes

variable {later : Heap}

theorem mono {tree : Tree phrase} {result} (grows : right.Grows later)
    (denotes : Denotes start right tree heap result) : Denotes start later tree heap result := by
  induction tree generalizing heap with
  | value w => exact ⟨denotes.1, denotes.2.grow (.refl heap) grows⟩
  | paren _ ih | operand _ ih => exact ih denotes
  | list _ ih | object _ ih | unary _ _ _ ih =>
    obtain ⟨middle, values, inner, done⟩ := denotes
    exact ⟨middle, values, ih inner, done⟩
  | index _ _ base_ih key_ih =>
    obtain ⟨middle, a, later, b, base, key, done⟩ := denotes
    exact ⟨middle, a, later, b, base_ih base, key_ih key, done⟩
  | slice _ _ _ base_ih first_ih last_ih =>
    obtain ⟨middle, a, between, b, later, c, base, first, last, done⟩ := denotes
    exact ⟨middle, a, between, b, later, c, base_ih base, first_ih first, last_ih last, done⟩
  | binary _ _ _ _ _ left_ih right_ih =>
    obtain ⟨middle, a, later, b, first, second, done⟩ := denotes
    exact ⟨middle, a, later, b, left_ih first, right_ih second, done⟩
  | missing => exact denotes
  | item _ ih | lastPart _ ih =>
    obtain ⟨v, inner, same⟩ := denotes
    exact ⟨v, ih inner, same⟩
  | entry _ _ key_ih content_ih =>
    obtain ⟨middle, a, b, key, content, same⟩ := denotes
    exact ⟨middle, a, b, key_ih key, content_ih content, same⟩
  | moreParts _ _ part_ih rest_ih =>
    obtain ⟨middle, first, others, part, rest, same⟩ := denotes
    exact ⟨middle, first, others, part_ih part, rest_ih rest, same⟩
  | call | apply | noArguments | arguments | lastArgument | moreArguments => exact denotes

variable (start) in
/-- What a tree evaluates to is what it denotes. -/
def Reaches {phrase : Phrase} (tree : Tree phrase) : Prop :=
  ∀ {heap : Heap} {result : phrase.Result} {after : Session σ}, start.heap.Grows heap →
    tree.evaluate (start.withHeap heap) = .ok result after →
    heap.Grows after.heap ∧ after = start.withHeap after.heap ∧
      Denotes start start.heap tree after.heap result

theorem Reaches.bind {part} {β : Type} {next : phrase.Result → Run σ β} {value after}
    (reaches : Reaches start part) (grown : start.heap.Grows heap)
    (done : (part.evaluate >>= next) (start.withHeap heap) = .ok value after) :
    ∃ result middle, start.heap.Grows middle ∧ heap.Grows middle ∧
      Denotes start start.heap part middle result ∧
      next result (start.withHeap middle) = .ok value after := by
  obtain ⟨result, between, part_done, continues⟩ := bind_eq_ok.mp done
  obtain ⟨grows, between_eq, denotes⟩ := reaches grown part_done
  rw [between_eq] at continues
  exact ⟨result, between.heap, grown.trans grows, grows, denotes, continues⟩

theorem of_evaluate {tree : Tree phrase} (leaves : tree.LeavesIn start.heap) :
    Reaches start tree := by
  intro heap result after grown done
  induction tree generalizing heap after with
  | value v =>
    cases done
    exact ⟨.refl heap, rfl, grown, .old leaves⟩
  | paren _ ih | operand _ ih => exact ih leaves grown done
  | list _ ih =>
    obtain ⟨values, middle, _, grows, denotes, made⟩ := Reaches.bind (ih leaves) grown done
    obtain ⟨grows_after, after_eq, made_eq⟩ := (Adds.newList values).finish grows made
    exact ⟨grows_after, after_eq, middle, values, denotes, made_eq⟩
  | object _ ih =>
    obtain ⟨values, middle, _, grows, denotes, made⟩ := Reaches.bind (ih leaves) grown done
    obtain ⟨grows_after, after_eq, made_eq⟩ := (Adds.makeObject values).finish grows made
    exact ⟨grows_after, after_eq, middle, values, denotes, made_eq⟩
  | index _ _ base_ih key_ih =>
    obtain ⟨a, first, grown, base_grows, base, done⟩ :=
      Reaches.bind (base_ih leaves.1) grown done
    obtain ⟨b, second, _, key_grows, key, done⟩ := Reaches.bind (key_ih leaves.2) grown done
    obtain ⟨grows_after, after_eq, indexed⟩ :=
      (Adds.index a b).finish (base_grows.trans key_grows) done
    exact ⟨grows_after, after_eq, first, a, second, b, base, key, key_grows, indexed⟩
  | slice _ _ _ base_ih first_ih last_ih =>
    obtain ⟨a, first, grown, base_grows, base, done⟩ :=
      Reaches.bind (base_ih leaves.1) grown done
    obtain ⟨b, second, grown, from_grows, from_denotes, done⟩ :=
      Reaches.bind (first_ih leaves.2.1) grown done
    obtain ⟨c, third, _, to_grows, to_denotes, done⟩ :=
      Reaches.bind (last_ih leaves.2.2) grown done
    obtain ⟨grows_after, after_eq, sliced⟩ :=
      (Adds.slice a (b.getD .nil) (c.getD .nil)).finish
        ((base_grows.trans from_grows).trans to_grows) done
    exact ⟨grows_after, after_eq, first, a, second, b, third, c, base, from_denotes, to_denotes,
      from_grows, to_grows, sliced⟩
  | unary symbol _ _ ih =>
    obtain ⟨a, middle, _, grows, denotes, done⟩ := Reaches.bind (ih leaves) grown done
    obtain ⟨grows_after, after_eq, applied⟩ := (Adds.applyUnary symbol a).finish grows done
    exact ⟨grows_after, after_eq, middle, a, denotes, applied⟩
  | binary symbol _ _ _ _ left_ih right_ih =>
    obtain ⟨a, first, grown, left_grows, left, done⟩ :=
      Reaches.bind (left_ih leaves.1) grown done
    obtain ⟨b, second, _, right_grows, right, done⟩ :=
      Reaches.bind (right_ih leaves.2) grown done
    obtain ⟨grows_after, after_eq, applied⟩ :=
      (Adds.applyBinary symbol a b).finish (left_grows.trans right_grows) done
    exact ⟨grows_after, after_eq, first, a, second, b, left, right, right_grows, applied⟩
  | missing =>
    cases done
    exact ⟨.refl heap, rfl, grown, rfl⟩
  | item _ ih | lastPart _ ih =>
    obtain ⟨v, between, inner, ⟨⟩⟩ := bind_eq_ok.mp done
    obtain ⟨grows, after_eq, denotes⟩ := ih leaves grown inner
    exact ⟨grows, after_eq, v, denotes, rfl⟩
  | entry _ _ key_ih content_ih =>
    obtain ⟨a, first, grown, key_grows, key, done⟩ := Reaches.bind (key_ih leaves.1) grown done
    obtain ⟨b, second, content_done, ⟨⟩⟩ := bind_eq_ok.mp done
    obtain ⟨grows, after_eq, content⟩ := content_ih leaves.2 grown content_done
    exact ⟨key_grows.trans grows, after_eq, first, a, b, key, content, grows, rfl⟩
  | moreParts _ _ part_ih rest_ih =>
    obtain ⟨a, first, grown, part_grows, part, done⟩ :=
      Reaches.bind (part_ih leaves.1) grown done
    obtain ⟨others, second, rest_done, ⟨⟩⟩ := bind_eq_ok.mp done
    obtain ⟨grows, after_eq, rest⟩ := rest_ih leaves.2 grown rest_done
    exact ⟨part_grows.trans grows, after_eq, first, a, others, part, rest, grows, rfl⟩
  | call | apply | noArguments | arguments | lastArgument | moreArguments => exact leaves.elim

end Denotes

/-! ### Contraction -/

/-- Parts of literals whose values are related. -/
def Element.Same (related : Value → Value → Prop) :
    (element : Element) → element.Result → element.Result → Prop
  | .item, a, b => related a b
  | .entry, a, b => related a.1 b.1 ∧ related a.2 b.2

def Phrase.Same (related : Value → Value → Prop) :
    (phrase : Phrase) → phrase.Result → phrase.Result → Prop
  | .operand, a, b | .expression, a, b => related a b
  | .part element, a, b => Rel (element.Same related) a b
  | .parts element, a, b => List.Forall₂ (element.Same related) a b
  | .arguments, a, b | .someArguments, a, b => List.Forall₂ related a b

section Same

variable {weaker : Value → Value → Prop} (weaken : ∀ a b, related a b → weaker a b)
include weaken

theorem Element.Same.imp {a b} (same : element.Same related a b) : element.Same weaker a b := by
  cases element with
  | item => exact weaken _ _ same
  | entry => exact ⟨weaken _ _ same.1, weaken _ _ same.2⟩

theorem relOption_imp {a b} (same : Rel (element.Same related) a b) :
    Rel (element.Same weaker) a b := by
  cases same with
  | none => exact .none
  | some same => exact .some (same.imp weaken)

end Same

theorem toList_forall₂ {element : Element} {related : Value → Value → Prop} {a b}
    (same : Rel (element.Same related) a b) :
    List.Forall₂ (element.Same related) a.toList b.toList := by
  cases same with
  | none => exact .nil
  | some same => exact .cons same .nil

theorem getD_nil_correspond {base left a b}
    (same : Rel (Element.item.Same (Correspond base left right)) a b) :
    Correspond base left right (a.getD .nil) (b.getD .nil) := by
  cases same with
  | none => exact .old (Value.in_of_scalar rfl)
  | some same => exact same

namespace Denotes

/-- If nothing is left to compute, the result corresponds to the one that is denoted. -/
theorem settled {tree result found} (denotes : Denotes start right tree heap result)
    (settled : tree.settled? = some found) :
    start.heap.Grows heap ∧ phrase.Same (Correspond start.heap heap right) result found := by
  induction tree generalizing heap with
  | value =>
    cases settled
    exact denotes
  | operand _ ih => exact ih denotes settled
  | missing =>
    cases settled
    obtain ⟨grows, rfl⟩ := denotes
    exact ⟨grows, .none⟩
  | item _ ih =>
    obtain ⟨v, inner, rfl⟩ := denotes
    obtain ⟨w, inner_settled, rfl⟩ := map_eq_some_iff.mp settled
    obtain ⟨grows, same⟩ := ih inner inner_settled
    exact ⟨grows, .some same⟩
  | entry _ _ key_ih content_ih =>
    obtain ⟨middle, a, b, key, content, grows, rfl⟩ := denotes
    obtain ⟨k, key_settled, rest⟩ := bind_eq_some_iff.mp settled
    obtain ⟨c, content_settled, ⟨⟩⟩ := bind_eq_some_iff.mp rest
    obtain ⟨_, key_same⟩ := key_ih key key_settled
    obtain ⟨content_grows, content_same⟩ := content_ih content content_settled
    exact ⟨content_grows, .some ⟨key_same.grow grows (.refl right), content_same⟩⟩
  | lastPart _ ih =>
    obtain ⟨v, inner, rfl⟩ := denotes
    obtain ⟨w, inner_settled, rfl⟩ := map_eq_some_iff.mp settled
    obtain ⟨grows, same⟩ := ih inner inner_settled
    exact ⟨grows, toList_forall₂ same⟩
  | moreParts _ _ part_ih rest_ih =>
    obtain ⟨middle, first, others, part, rest, grows, rfl⟩ := denotes
    obtain ⟨w, part_settled, remaining⟩ := bind_eq_some_iff.mp settled
    obtain ⟨ws, rest_settled, ⟨⟩⟩ := bind_eq_some_iff.mp remaining
    obtain ⟨_, part_same⟩ := part_ih part part_settled
    obtain ⟨rest_grows, rest_same⟩ := rest_ih rest rest_settled
    have part_later := relOption_imp (fun _ _ same => same.grow grows (.refl right)) part_same
    exact ⟨rest_grows, List.rel_append (toList_forall₂ part_later) rest_same⟩
  | paren | list | object | call | apply | index | slice | unary | binary | noArguments | arguments
  | lastArgument | moreArguments => cases settled

end Denotes

/-- A node whose parts are all values, with the operation that it stands for. -/
inductive Redex : {phrase : Phrase} → Tree phrase → Run σ Value → Prop where
  | paren {inner a} (settled : inner.settled? = some a) : Redex (.paren inner) (pure a)
  | list {items values} (settled : items.settled? = some values) :
      Redex (.list items) (onHeap (Mem.newList values))
  | object {entries values}
      (settled : entries.settled? = some values) : Redex (.object entries) (makeObject values)
  | index {base key a b}
      (base_settled : base.settled? = some a) (key_settled : key.settled? = some b) :
      Redex (.index base key) (onHeap (Mem.index a b))
  | slice {base first last a b c}
      (base_settled : base.settled? = some a) (first_settled : first.settled? = some b)
      (last_settled : last.settled? = some c) :
      Redex (.slice base first last) (onHeap (Mem.slice a (b.getD .nil) (c.getD .nil)))
  | unary {symbol isUnary inner a} (settled : inner.settled? = some a) :
      Redex (.unary symbol isUnary inner) (applyUnary symbol a)
  | binary {symbol precedence isBinary left right a b} (left_settled : left.settled? = some a)
      (right_settled : right.settled? = some b) :
      Redex (.binary symbol precedence isBinary left right) (applyBinary symbol a b)

def DenotesLeaf (start : Session σ) (right : Heap) (phrase : Phrase) (heap : Heap)
    (result : phrase.Result) (value : Value) : Prop :=
  ∃ leaf : Tree phrase, leaf.tokens = [.val value] ∧ leaf.Grouped ∧ leaf.level = 6 ∧
    Denotes start right leaf heap result

section Leaves

variable {w : Value} (grown : start.heap.Grows heap) (same : Correspond start.heap heap right v w)
include grown same

theorem denotesLeaf_operand : DenotesLeaf start right .operand heap v w :=
  ⟨.value w, rfl, trivial, rfl, grown, same⟩

theorem denotesLeaf_expression : DenotesLeaf start right .expression heap v w :=
  ⟨.operand (.value w), rfl, trivial, rfl, grown, same⟩

end Leaves

/-- What follows an operation of values leaves one value in its place. -/
theorem Follows.contract {middle other result} (follows : Follows start middle right act other)
    (adds : act.Adds) (other_adds : other.Adds) (grown : start.heap.Grows middle)
    (done : act (start.withHeap middle) = .ok v (start.withHeap heap))
    (leaf : ∀ {later w}, start.heap.Grows heap → Correspond start.heap heap later v w →
      DenotesLeaf start later phrase heap result w) :
    ∃ w later, other (start.withHeap right) = .ok w (start.withHeap later) ∧ right.Grows later ∧
      DenotesLeaf start later phrase heap result w := by
  obtain ⟨w, after, other_done, same⟩ := follows v _ done
  obtain ⟨right_grows, _, other_eq⟩ := other_adds.finish (.refl right) other_done
  obtain ⟨grown_later, _, _⟩ := adds.finish grown done
  exact ⟨w, after.heap, other_eq, right_grows, leaf grown_later same⟩

/-- A node whose parts are all values can be replaced by its value. -/
theorem Redex.contract {node result} (redex : Redex node act) (closed : start.heap.Closed)
    (right_grows : start.heap.Grows right) (denotes : Denotes start right node heap result) :
    ∃ w later, act (start.withHeap right) = .ok w (start.withHeap later) ∧ right.Grows later ∧
      DenotesLeaf start later phrase heap result w := by
  have twins {left : Heap} (left_grows : start.heap.Grows left) : Twins start.heap left right :=
    ⟨closed, left_grows, right_grows⟩
  cases redex with
  | @paren inner a settled =>
    have inner_denotes : Denotes start right inner heap result := denotes
    obtain ⟨grown, same⟩ := inner_denotes.settled settled
    exact ⟨_, right, rfl, .refl right, denotesLeaf_operand grown same⟩
  | list settled =>
    obtain ⟨middle, values, items, done⟩ := denotes
    obtain ⟨grown, same⟩ := items.settled settled
    exact (Follows.onHeap ((twins grown).newList same)).contract (.newList _) (.newList _) grown
      done denotesLeaf_operand
  | object settled =>
    obtain ⟨middle, values, entries, done⟩ := denotes
    obtain ⟨grown, same⟩ := entries.settled settled
    exact ((twins grown).makeObject same).contract (.makeObject _) (.makeObject _) grown done
      denotesLeaf_operand
  | index base_settled key_settled =>
    obtain ⟨middle, a, between, b, base, key, grows_between, done⟩ := denotes
    obtain ⟨_, base_same⟩ := base.settled base_settled
    obtain ⟨grown, key_same⟩ := key.settled key_settled
    have base_later := base_same.grow grows_between (.refl right)
    exact (Follows.onHeap ((twins grown).index base_later key_same)).contract (.index _ _)
      (.index _ _) grown done denotesLeaf_operand
  | slice base_settled first_settled last_settled =>
    obtain ⟨middle, a, between, b, after, c, base, first, last, to_between, to_after, done⟩ :=
      denotes
    obtain ⟨_, base_same⟩ := base.settled base_settled
    obtain ⟨_, first_same⟩ := first.settled first_settled
    obtain ⟨grown, last_same⟩ := last.settled last_settled
    have base_later := base_same.grow (to_between.trans to_after) (.refl right)
    have first_later := (getD_nil_correspond first_same).grow to_after (.refl right)
    exact (Follows.onHeap ((twins grown).slice base_later first_later
      (getD_nil_correspond last_same))).contract (.slice _ _ _) (.slice _ _ _) grown done
        denotesLeaf_operand
  | unary settled =>
    obtain ⟨middle, a, inner, done⟩ := denotes
    obtain ⟨grown, same⟩ := inner.settled settled
    exact ((twins grown).applyUnary same _).contract (.applyUnary _ _) (.applyUnary _ _) grown
      done denotesLeaf_expression
  | binary left_settled right_settled =>
    obtain ⟨middle, a, between, b, left, right, grows_between, done⟩ := denotes
    obtain ⟨_, left_same⟩ := left.settled left_settled
    obtain ⟨grown, right_same⟩ := right.settled right_settled
    have left_later := left_same.grow grows_between (.refl _)
    exact ((twins grown).applyBinary left_later right_same _).contract (.applyBinary _ _ _)
      (.applyBinary _ _ _) grown done denotesLeaf_expression

end Vimlet
