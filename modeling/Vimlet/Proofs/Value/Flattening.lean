import Vimlet.Builtin.Container
import Vimlet.Proofs.Session.Ending
import Vimlet.Proofs.Value.Acyclic
import Vimlet.Proofs.Value.Changes

/-!
# Flattening

Flattening puts the elements of Lists inside a List in place of those Lists. Two depths in a row add
up, and without a limit only the leaves are left.
-/

namespace Vimlet.Heap

open Relation List

/-- Elements are flattened down to a depth; a negative depth has no limit. -/
inductive Flattens (heap : Heap) : Int → List Value → List Value → Prop where
  | nil (depth : Int) : Flattens heap depth [] []
  | keep {depth value items flat}
      (kept : ∀ cell, value = .list cell → depth = 0) (rest : Flattens heap depth items flat) :
      Flattens heap depth (value :: items) (value :: flat)
  | enter {depth cell items inner flat} (deeper : depth ≠ 0)
      (inside : Flattens heap (depth - 1) (heap.list cell) inner)
      (rest : Flattens heap depth items flat) :
      Flattens heap depth (.list cell :: items) (inner ++ flat)

/-- The values other than Lists in elements and in the Lists among them, from left to right. -/
inductive Leaves (heap : Heap) : List Value → List Value → Prop where
  | nil : Leaves heap [] []
  | leaf {value items leaves} (scalar : ∀ cell, value ≠ .list cell)
      (rest : Leaves heap items leaves) : Leaves heap (value :: items) (value :: leaves)
  | list {cell items inner leaves} (inside : Leaves heap (heap.list cell) inner)
      (rest : Leaves heap items leaves) : Leaves heap (.list cell :: items) (inner ++ leaves)

variable {heap : Heap} {depth a b : Int} {items others flat : List Value} {fuel cell : Nat}

namespace Flattens

theorem unique (first : heap.Flattens depth items flat) (second : heap.Flattens depth items others) :
    flat = others := by
  induction first generalizing others with
  | nil => cases second; rfl
  | keep kept rest ih =>
    cases second with
    | keep _ other => rw [ih other]
    | enter deeper => exact absurd (kept _ rfl) deeper
  | enter deeper inside rest inside_ih ih =>
    cases second with
    | keep kept => exact absurd (kept _ rfl) deeper
    | enter _ other_inside other => rw [inside_ih other_inside, ih other]

theorem append_inv {front back} (flattens : heap.Flattens depth (front ++ back) flat) :
    ∃ left right, heap.Flattens depth front left ∧ heap.Flattens depth back right ∧
      flat = left ++ right := by
  induction front generalizing flat with
  | nil => exact ⟨[], flat, .nil _, flattens, rfl⟩
  | cons value front ih =>
    cases flattens with
    | keep kept rest =>
      obtain ⟨left, right, front_flattens, back_flattens, rfl⟩ := ih rest
      exact ⟨_, right, .keep kept front_flattens, back_flattens, rfl⟩
    | enter deeper inside rest =>
      obtain ⟨left, right, front_flattens, back_flattens, rfl⟩ := ih rest
      exact ⟨_, right, .enter deeper inside front_flattens, back_flattens,
        (append_assoc ..).symm⟩

/-- Two depths in a row add up. -/
theorem add (first : heap.Flattens a items others) (a_nonneg : 0 ≤ a) (b_nonneg : 0 ≤ b)
    (second : heap.Flattens b others flat) : heap.Flattens (a + b) items flat := by
  induction first generalizing flat with
  | nil => cases second; exact .nil _
  | keep kept rest ih =>
    cases second with
    | keep kept_again others_flatten =>
      refine .keep (fun cell is_list => ?_) (ih a_nonneg others_flatten)
      rw [kept cell is_list, kept_again cell is_list, Int.add_zero]
    | enter deeper inside others_flatten =>
      have a_eq := kept _ rfl
      refine .enter (by omega) ?_ (ih a_nonneg others_flatten)
      rwa [a_eq, Int.zero_add]
  | @enter a _ _ _ _ deeper inside rest inside_ih ih =>
    obtain ⟨left, right, inner_flattens, others_flatten, rfl⟩ := second.append_inv
    refine .enter (by omega) ?_ (ih a_nonneg others_flatten)
    have depth_eq : a + b - 1 = a - 1 + b := by omega
    rw [depth_eq]
    exact inside_ih (by omega) inner_flattens

theorem leaves (flattens : heap.Flattens depth items flat) (unlimited : depth < 0) :
    heap.Leaves items flat := by
  induction flattens with
  | nil => exact .nil
  | keep kept rest ih =>
    exact .leaf (fun cell is_list => by have := kept cell is_list; omega) (ih unlimited)
  | enter deeper inside rest inside_ih ih =>
    exact .list (inside_ih (by omega)) (ih unlimited)

/-- What holds of the elements, and with a List of what is in it, holds after flattening. -/
theorem forall_mem {property : Value → Prop} (flattens : heap.Flattens depth items flat)
    (inherit : ∀ cell, property (.list cell) → ∀ inner ∈ heap.list cell, property inner)
    (all : ∀ value ∈ items, property value) : ∀ value ∈ flat, property value := by
  induction flattens with
  | nil => exact all
  | keep _ _ ih =>
    obtain ⟨first, others⟩ := forall_mem_cons.mp all
    exact forall_mem_cons.mpr ⟨first, ih others⟩
  | enter _ _ _ inside_ih ih =>
    obtain ⟨first, others⟩ := forall_mem_cons.mp all
    exact forall_mem_append.mpr ⟨inside_ih (inherit _ first), ih others⟩

/-- Flattening goes the same way in a heap that has grown. -/
theorem shrink {later} (closed : heap.Closed) (grows : heap.Grows later)
    (valid : ∀ value ∈ items, value.In heap) (flattens : later.Flattens depth items flat) :
    heap.Flattens depth items flat := by
  induction flattens with
  | nil => exact .nil _
  | keep kept _ ih => exact .keep kept (ih (forall_mem_cons.mp valid).2)
  | @enter _ cell _ _ _ deeper _ _ inside_ih ih =>
    obtain ⟨first, others⟩ := forall_mem_cons.mp valid
    rw [grows.list_eq (first _ rfl)] at inside_ih
    exact .enter deeper (inside_ih (closed (.list cell))) (ih others)

end Flattens

theorem Leaves.not_list {leaves} (all : heap.Leaves items leaves) :
    ∀ value ∈ leaves, ∀ cell, value ≠ .list cell := by
  induction all with
  | nil => exact forall_mem_nil _
  | leaf scalar _ ih => exact forall_mem_cons.mpr ⟨scalar, ih⟩
  | list _ _ inside_ih ih => exact forall_mem_append.mpr ⟨inside_ih, ih⟩

theorem flattens_self (scalars : ∀ value ∈ items, ∀ cell, value ≠ .list cell) (depth : Int) :
    heap.Flattens depth items items := by
  induction items with
  | nil => exact .nil _
  | cons value items ih =>
    obtain ⟨first, others⟩ := forall_mem_cons.mp scalars
    exact .keep (fun cell is_list => absurd is_list (first cell)) (ih others)

/-! ### The walk -/

theorem flattenWithin_cons {value inner}
    (first : (match value with
      | .list cell =>
        if depth ≠ 0 then heap.flattenWithin fuel (depth - 1) (heap.list cell) else some [value]
      | _ => some [value]) = some inner)
    (rest : heap.flattenWithin (fuel + 1) depth items = some flat) :
    heap.flattenWithin (fuel + 1) depth (value :: items) = some (inner ++ flat) := by
  rw [flattenWithin] at rest ⊢
  obtain ⟨parts, found, rfl⟩ := Option.map_eq_some_iff.mp rest
  rw [mapM_cons, found]
  exact congrArg (Option.map flatten)
    (congrArg (Option.bind · fun part => some (part :: parts)) first)

/-- The walk does not get deeper than there are containers, and finds what elements are flattened to.
-/
theorem exists_flattens {path} (acyclic : heap.Acyclic (.list cell))
    (above : ∀ outer ∈ path, TransGen heap.Holds outer.value (.list cell))
    (enough : unvisited heap.handles path ≤ fuel) (depth : Int) :
    ∃ flat, heap.flattenWithin (fuel + 1) depth (heap.list cell) = some flat ∧
      heap.Flattens depth (heap.list cell) flat := by
  induction fuel using Nat.strong_induction_on generalizing cell path depth with
  | _ fuel ih =>
    have fresh : Handle.list cell ∉ path := fun mem => acyclic.self (above _ mem)
    have through (items : List Value) (inside : ∀ value ∈ items, value ∈ heap.list cell) :
        ∃ flat, heap.flattenWithin (fuel + 1) depth items = some flat ∧
          heap.Flattens depth items flat := by
      induction items with
      | nil => exact ⟨[], rfl, .nil depth⟩
      | cons value items items_ih =>
        obtain ⟨mem, others⟩ := forall_mem_cons.mp inside
        obtain ⟨flat, rest, flattens⟩ := items_ih others
        by_cases kept : ∀ cell, value = .list cell → depth = 0
        · refine ⟨[value] ++ flat, flattenWithin_cons ?_ rest, .keep kept flattens⟩
          cases value with
          | list inner => exact if_neg (not_not.mpr (kept inner rfl))
          | _ => rfl
        · push Not at kept
          obtain ⟨inner, rfl, deeper⟩ := kept
          have held : Value.list inner ∈ heap.contents (.list cell) := mem
          have fewer := unvisited_enter_lt fresh held
          obtain ⟨less, rfl⟩ : ∃ less, fuel = less + 1 := ⟨fuel - 1, by omega⟩
          have holds := Holds.of_mem held
          have above_inner : ∀ outer ∈ Handle.list cell :: path,
              TransGen heap.Holds outer.value (.list inner) :=
            forall_mem_cons.mpr ⟨.single holds, fun _ mem => (above _ mem).tail holds⟩
          obtain ⟨inner_flat, found, inner_flattens⟩ :=
            ih less (by omega) (acyclic.held holds) above_inner (by omega) (depth - 1)
          exact ⟨_, flattenWithin_cons ((if_pos deeper).trans found) rest,
            .enter deeper inner_flattens flattens⟩
    exact through _ fun _ mem => mem

/-- Flattening a List makes another one of these elements and changes nothing else. -/
structure FlattensTo (heap : Heap) (cell : Nat) (depth : Option Int) (items : List Value) (made : Nat)
    (later : Heap) : Prop where
  returns : ContainerFunction.apply .flatten (.list cell :: depth.toList.map .integer) heap =
    .ok (.list made) later
  items_eq : later.list made = items
  grows : heap.Grows later

theorem apply_flatten (depth : Option Int)
    (found : heap.flattenWithin (heap.size + nestingLimit) (depth.getD (-1)) (heap.list cell) =
      some items) :
    ContainerFunction.apply .flatten (.list cell :: depth.toList.map .integer) heap =
      Mem.newList items heap := by
  cases depth with
  | none =>
    change Mem.flattenList (.list cell) .nil heap = _
    rw [Option.getD_none] at found
    simp only [Mem.flattenList, Mem.itemsOf, Mem.listCell, bind_assoc, pure_bind, Run.get_bind, found]
  | some depth =>
    change Mem.flattenList (.list cell) (.integer depth) heap = _
    rw [Option.getD_some] at found
    simp only [Mem.flattenList, Mem.itemsOf, Mem.listCell, Mem.ofExcept, Value.toInt, bind_assoc,
      pure_bind, Run.get_bind, found]

theorem exists_flattensTo (acyclic : heap.Acyclic (.list cell)) (depth : Option Int) :
    ∃ items made later, heap.FlattensTo cell depth items made later ∧
      heap.Flattens (depth.getD (-1)) (heap.list cell) items := by
  have enough : unvisited heap.handles [] ≤ heap.size + 1249 :=
    (unvisited_le _ _).trans (Nat.le_add_right_of_le heap.card_handles_le)
  obtain ⟨items, found, flattens⟩ := exists_flattens acyclic (forall_mem_nil _) enough
    (depth.getD (-1))
  exact ⟨items, heap.lists.size, _,
    ⟨apply_flatten depth found, contents_pushList heap items, .pushList _ _⟩, flattens⟩

theorem FlattensTo.acyclic (closed : heap.Closed) (acyclic : heap.Acyclic (.list cell))
    {depth made later} (made_items : heap.FlattensTo cell depth items made later)
    (flattens : heap.Flattens (depth.getD (-1)) (heap.list cell) items) :
    (∀ value ∈ items, value.In heap) ∧ later.Acyclic (.list made) := by
  have inherited : ∀ value ∈ items, heap.Acyclic value ∧ value.In heap :=
    flattens.forall_mem (fun inner outer value mem =>
        ⟨outer.1.held ⟨.list inner, rfl, mem⟩, closed (.list inner) value mem⟩)
      fun value mem => ⟨acyclic.held ⟨.list cell, rfl, mem⟩, closed (.list cell) value mem⟩
  refine ⟨fun value mem => (inherited value mem).2, .of_held ?_⟩
  rintro inner ⟨_, is_list, mem⟩
  cases is_list
  have mem : inner ∈ items := made_items.items_eq ▸ mem
  exact made_items.grows.acyclic closed (inherited inner mem).2 (inherited inner mem).1

/-- Flattening a List without cycles down to two depths in a row is flattening down to their sum.
Without a limit it gives the leaves in order, which do not change any more. No container changes. -/
theorem flatten_composes (closed : heap.Closed)
    (acyclic : heap.Acyclic (.list cell)) :
    (∀ a b : Int, 0 ≤ a → 0 ≤ b → ∃ items middle between flat made last once after,
      heap.FlattensTo cell (some a) items middle between ∧
        between.FlattensTo middle (some b) flat made last ∧
        heap.FlattensTo cell (some (a + b)) flat once after) ∧
    ∀ depth : Option Int, (∀ limit ∈ depth, limit < 0) → ∃ leaves made later,
      heap.Leaves (heap.list cell) leaves ∧ heap.FlattensTo cell depth leaves made later ∧
        ∀ again : Option Int, ∃ copy last, later.FlattensTo made again leaves copy last := by
  constructor
  · intro a b a_nonneg b_nonneg
    obtain ⟨items, middle, between, first, flattens⟩ := exists_flattensTo acyclic (some a)
    obtain ⟨items_valid, middle_acyclic⟩ := first.acyclic closed acyclic flattens
    obtain ⟨flat, made, last, second, again⟩ := exists_flattensTo middle_acyclic (some b)
    obtain ⟨sum, once, after, direct, at_once⟩ := exists_flattensTo acyclic (some (a + b))
    rw [first.items_eq] at again
    obtain rfl : sum = flat := at_once.unique
      (flattens.add a_nonneg b_nonneg (again.shrink closed first.grows items_valid))
    exact ⟨items, middle, between, sum, made, last, once, after, first, second, direct⟩
  · intro depth unlimited
    obtain ⟨leaves, made, later, first, flattens⟩ := exists_flattensTo acyclic depth
    have all_leaves : heap.Leaves (heap.list cell) leaves := by
      refine flattens.leaves ?_
      cases depth with
      | none => decide
      | some limit => exact unlimited limit rfl
    refine ⟨leaves, made, later, all_leaves, first, fun again => ?_⟩
    obtain ⟨_, made_acyclic⟩ := first.acyclic closed acyclic flattens
    obtain ⟨items, copy, last, second, flattens_again⟩ := exists_flattensTo made_acyclic again
    rw [first.items_eq] at flattens_again
    obtain rfl : items = leaves := flattens_again.unique (flattens_self all_leaves.not_list _)
    exact ⟨copy, last, second⟩

/-- A number and a List of a number and a List. -/
def nested : Heap where
  lists := #[{ items := #[.integer 1, .list 1] }, { items := #[.integer 2, .list 2] },
    { items := #[.integer 3] }]

def nestedRank : Value → Nat
  | .list cell => 3 - cell
  | _ => 0

/-- The leaves of the nested List are found and stay as they are. -/
theorem flatten_composes_nested :
    nested.Closed ∧ nested.Acyclic (.list 0) ∧
      ∃ later, nested.FlattensTo 0 (some (-1)) [.integer 1, .integer 2, .integer 3] 3 later ∧
        ∃ copy last,
          later.FlattensTo 3 none [.integer 1, .integer 2, .integer 3] copy last := by
  have closed : nested.Closed := forall_contents (by decide) (by decide)
  have acyclic : nested.Acyclic (.list 0) := acyclic_of_rank nestedRank
    (forall_contents (by decide) (by decide)) (.list 0)
  obtain ⟨leaves, made, later, _, first, again⟩ :=
    (flatten_composes closed acyclic).2 (some (-1)) (by decide)
  have found : nested.flattenWithin (nested.size + nestingLimit) (-1) (nested.list 0) =
      some [.integer 1, .integer 2, .integer 3] := rfl
  have answer := apply_flatten (some (-1)) found
  cases answer.symm.trans first.returns
  obtain rfl := first.items_eq
  exact ⟨closed, acyclic, _, first, again none⟩

end Vimlet.Heap
