import Vimlet.Proofs.Value.Equality

/-!
# Equality of values

Two values without cycles are equal exactly if their trees agree, with the keys of an Object in any
order. So equality is an equivalence on values without Numbers.
-/

namespace Vimlet

open List

variable {a b c : Value} {first second : Nat} {tree other : Value.Tree}

/-! ### Trees up to the order of keys -/

/-- Two values of one kind, neither containers nor Numbers, are the same, up to the serial numbers
of references. -/
inductive Value.Alike : Value → Value → Prop
  | nil : Alike .nil .nil
  | bool (b : Bool) : Alike (.bool b) (.bool b)
  | integer (n : Int) : Alike (.integer n) (.integer n)
  | str (text : String) : Alike (.str text) (.str text)
  | function {ref other} (name_eq : ref.name = other.name)
      (script_eq : ref.script = other.script) : Alike (.function ref) (.function other)

namespace Value.Alike

theorem symm (alike : a.Alike b) : b.Alike a := by
  cases alike with
  | function name_eq script_eq => exact .function name_eq.symm script_eq.symm
  | nil | bool | integer | str => constructor

theorem trans (first : a.Alike b) (second : b.Alike c) : a.Alike c := by
  cases first with
  | function name_eq script_eq =>
    cases second with
    | function next_name_eq next_script_eq =>
      exact .function (name_eq.trans next_name_eq) (script_eq.trans next_script_eq)
  | nil | bool | integer | str => exact second

theorem scalar (alike : a.Alike b) : b.handle? = none := by
  cases alike <;> rfl

end Value.Alike

/-- Two trees are the same up to the order of keys. Trees with marks agree with none. -/
inductive Value.Tree.Agrees : Value.Tree → Value.Tree → Prop
  | leaf {a b a_scalar b_scalar} (alike : a.Alike b) : Agrees (.leaf a a_scalar) (.leaf b b_scalar)
  | list {branches others} (length_eq : branches.length = others.length)
      (inside : ∀ (i : Nat) (branch other : Value.Tree), branches[i]? = some branch →
        others[i]? = some other → Agrees branch other) :
      Agrees (.node none branches) (.node none others)
  | object {keys other_keys branches others}
      (full : keys.length = branches.length) (other_full : other_keys.length = others.length)
      (same_keys : keys.Perm other_keys)
      (inside : ∀ (key : String) (branch other : Value.Tree), (key, branch) ∈ keys.zip branches →
        (key, other) ∈ other_keys.zip others → Agrees branch other) :
      Agrees (.node (some keys) branches) (.node (some other_keys) others)

namespace Value.Tree.Agrees

variable {first second third : Value.Tree}

theorem symm (agrees : first.Agrees second) : second.Agrees first := by
  induction agrees with
  | leaf alike => exact .leaf alike.symm
  | list length_eq _ ih =>
    exact .list length_eq.symm fun i branch other at_i other_at => ih i other branch other_at at_i
  | object full other_full same_keys _ ih =>
    exact .object other_full full same_keys.symm fun key branch other mem other_mem =>
      ih key other branch other_mem mem

theorem trans (agrees : first.Agrees second) (next : second.Agrees third) : first.Agrees third := by
  induction agrees generalizing third with
  | leaf alike =>
    cases next with
    | leaf next => exact .leaf (alike.trans next)
  | list length_eq _ ih =>
    cases next with
    | list next_length_eq inside =>
      refine .list (length_eq.trans next_length_eq) fun i branch last at_i last_at => ?_
      obtain ⟨between, between_at⟩ := exists_getElem?_of_length_eq length_eq at_i
      exact ih i branch between at_i between_at (inside i between last between_at last_at)
  | @object keys other_keys branches others full other_full same_keys _ ih =>
    cases next with
    | object _ last_full next_same_keys inside =>
      refine .object full last_full (same_keys.trans next_same_keys)
        fun key branch last mem last_mem => ?_
      have key_mem : key ∈ other_keys := same_keys.mem_iff.mp (of_mem_zip mem).1
      obtain ⟨i, key_at⟩ := mem_iff_getElem?.mp key_mem
      obtain ⟨between, between_at⟩ := exists_getElem?_of_length_eq other_full key_at
      have between_mem : (key, between) ∈ other_keys.zip others :=
        mem_zip_iff_getElem?.mpr ⟨i, key_at, between_at⟩
      exact ih key branch between mem between_mem (inside key between last between_mem last_mem)

end Value.Tree.Agrees

namespace Table

variable {κ α β : Type} {table : Table κ α} {branches : List β} {key : κ} {value : α} {branch : β}

theorem exists_branch (length_eq : table.values.length = branches.length)
    (mem : (key, value) ∈ table.entries) :
    ∃ branch, (key, branch) ∈ table.keys.zip branches ∧
      (value, branch) ∈ table.values.zip branches := by
  obtain ⟨i, entry_at⟩ := mem_iff_getElem?.mp mem
  have key_at : table.keys[i]? = some key := by simp [keys, entry_at]
  have value_at : table.values[i]? = some value := by simp [values, entry_at]
  obtain ⟨branch, branch_at⟩ := exists_getElem?_of_length_eq length_eq value_at
  exact ⟨branch, mem_zip_iff_getElem?.mpr ⟨i, key_at, branch_at⟩,
    mem_zip_iff_getElem?.mpr ⟨i, value_at, branch_at⟩⟩

theorem exists_entry (mem : (key, branch) ∈ table.keys.zip branches) :
    ∃ value, (key, value) ∈ table.entries ∧ (value, branch) ∈ table.values.zip branches := by
  obtain ⟨i, key_at, branch_at⟩ := mem_zip_iff_getElem?.mp mem
  rw [keys, getElem?_map, Option.map_eq_some_iff] at key_at
  obtain ⟨⟨_, value⟩, entry_at, rfl⟩ := key_at
  have value_at : table.values[i]? = some value := by simp [values, entry_at]
  exact ⟨value, mem_of_getElem? entry_at, mem_zip_iff_getElem?.mpr ⟨i, value_at, branch_at⟩⟩

end Table

namespace Heap

variable {heap : Heap}

theorem equal?_scalar_iff (scalar : a.handle? = none) (no_number : a.kind ≠ .number) :
    heap.equal? a b = some true ↔ a.Alike b := by
  constructor
  · intro equal
    have kinds := kind_eq_of_equal? equal
    cases a with
    | list | object => cases scalar
    | number => exact absurd rfl no_number
    | nil =>
      cases b <;> cases kinds
      exact .nil
    | bool | integer | str =>
      cases b <;> cases kinds
      rw [equal?_answer rfl, Option.some.injEq, beq_iff_eq] at equal
      subst equal
      constructor
    | function =>
      cases b <;> cases kinds
      rw [equal?_answer rfl, Option.some.injEq, FuncRef.agrees, Bool.and_eq_true, beq_iff_eq,
        beq_iff_eq] at equal
      exact .function equal.1 equal.2
  · intro alike
    cases alike with
    | function name_eq script_eq =>
      exact equal?_answer (by simp [compare, FuncRef.agrees, name_eq, script_eq])
    | nil | bool | integer | str => exact equal?_answer (compare_self rfl trivial)

section Branches

variable {branches others : List Value.Tree}

/-- Lists are equal as their trees agree, if this is so for what they hold. -/
theorem equal?_list_iff_agrees (length_eq : (heap.list first).length = branches.length)
    (other_length_eq : (heap.list second).length = others.length)
    (settled : ∀ a branch b other, (a, branch) ∈ (heap.list first).zip branches →
      (b, other) ∈ (heap.list second).zip others →
      (heap.equal? a b = some true ↔ branch.Agrees other)) :
    heap.equal? (.list first) (.list second) = some true ↔
      (Value.Tree.node none branches).Agrees (.node none others) := by
  have settled_at (i : Nat) {a b : Value} {branch other : Value.Tree}
      (a_at : (heap.list first)[i]? = some a) (branch_at : branches[i]? = some branch)
      (b_at : (heap.list second)[i]? = some b) (other_at : others[i]? = some other) :
      heap.equal? a b = some true ↔ branch.Agrees other :=
    settled a branch b other (mem_zip_iff_getElem?.mpr ⟨i, a_at, branch_at⟩)
      (mem_zip_iff_getElem?.mpr ⟨i, b_at, other_at⟩)
  rw [equal?_list_iff]
  constructor
  · rintro ⟨same_length, all⟩
    refine .list (by omega) fun i branch other branch_at other_at => ?_
    obtain ⟨a, a_at⟩ := exists_getElem?_of_length_eq length_eq.symm branch_at
    obtain ⟨b, b_at⟩ := exists_getElem?_of_length_eq other_length_eq.symm other_at
    exact (settled_at i a_at branch_at b_at other_at).mp (all i a b a_at b_at)
  · intro agrees
    cases agrees with
    | list same_length inside =>
      refine ⟨by omega, fun i a b a_at b_at => ?_⟩
      obtain ⟨branch, branch_at⟩ := exists_getElem?_of_length_eq length_eq a_at
      obtain ⟨other, other_at⟩ := exists_getElem?_of_length_eq other_length_eq b_at
      exact (settled_at i a_at branch_at b_at other_at).mpr
        (inside i branch other branch_at other_at)

theorem equal?_object_iff_agrees (keyed : heap.Keyed)
    (length_eq : (heap.object first).values.length = branches.length)
    (other_length_eq : (heap.object second).values.length = others.length)
    (settled : ∀ a branch b other, (a, branch) ∈ (heap.object first).values.zip branches →
      (b, other) ∈ (heap.object second).values.zip others →
      (heap.equal? a b = some true ↔ branch.Agrees other)) :
    heap.equal? (.object first) (.object second) = some true ↔
      (Value.Tree.node (some (heap.object first).keys) branches).Agrees
        (.node (some (heap.object second).keys) others) := by
  have full (table : Table String Value) : table.keys.length = table.values.length := by
    simp [Table.keys, Table.values]
  rw [equal?_object_iff keyed]
  constructor
  · rintro ⟨same_keys, all⟩
    refine .object ((full _).trans length_eq) ((full _).trans other_length_eq) same_keys
      fun key branch other branch_mem other_mem => ?_
    obtain ⟨a, a_mem, a_paired⟩ := Table.exists_entry branch_mem
    obtain ⟨b, b_mem, b_paired⟩ := Table.exists_entry other_mem
    exact (settled a branch b other a_paired b_paired).mp (all key a b a_mem b_mem)
  · intro agrees
    cases agrees with
    | object _ _ same_keys inside =>
      refine ⟨same_keys, fun key a b a_mem b_mem => ?_⟩
      obtain ⟨branch, branch_mem, a_paired⟩ := Table.exists_branch length_eq a_mem
      obtain ⟨other, other_mem, b_paired⟩ := Table.exists_branch other_length_eq b_mem
      exact (settled a branch b other a_paired b_paired).mpr
        (inside key branch other branch_mem other_mem)

end Branches

/-- Two values are equal exactly if their trees agree, provided that these have no marks. -/
theorem Unfolds.equal?_iff_agrees (keyed : heap.Keyed) {around outer}
    (unfolds : heap.Unfolds around a tree) (unmarked : tree.marks = [])
    (no_numbers : heap.Throughout (fun inner => inner.kind ≠ .number) a)
    (other_unfolds : heap.Unfolds outer b other) (other_unmarked : other.marks = []) :
    heap.equal? a b = some true ↔ tree.Agrees other := by
  -- the tree of the first value is taken apart, and the second value has to keep up
  induction unfolds generalizing b outer other with
  | leaf scalar =>
    rw [equal?_scalar_iff scalar no_numbers.self]
    constructor
    · intro alike
      cases other_unfolds with
      | leaf => exact .leaf alike
      | mark container | node container => cases alike.scalar.symm.trans container
    · intro agrees
      cases agrees with
      | leaf alike =>
        cases other_unfolds
        exact alike
  | mark => simp [Value.Tree.marks] at unmarked
  | @node _ value handle branches container _ length_eq _ ih =>
    rw [Value.Tree.marks, flatMap_eq_nil_iff] at unmarked
    cases other_unfolds with
    | mark => simp [Value.Tree.marks] at other_unmarked
    | leaf scalar =>
      constructor
      · intro equal
        have own_scalar := Value.scalar_of_kind_eq (kind_eq_of_equal? equal) scalar
        cases own_scalar.symm.trans container
      · generalize heap.keys handle = keys
        intro agrees
        cases agrees
    | @node _ _ second others other_container _ other_length_eq other_inside =>
      rw [Value.Tree.marks, flatMap_eq_nil_iff] at other_unmarked
      have settled (a : Value) (branch : Value.Tree) (b : Value) (other : Value.Tree)
          (mem : (a, branch) ∈ (heap.contents handle).zip branches)
          (other_mem : (b, other) ∈ (heap.contents second).zip others) :
          heap.equal? a b = some true ↔ branch.Agrees other := by
        obtain ⟨a_mem, branch_mem⟩ := of_mem_zip mem
        exact ih a branch mem (unmarked branch branch_mem)
          (no_numbers.held ⟨handle, container, a_mem⟩) (other_inside b other other_mem)
          (other_unmarked other (of_mem_zip other_mem).2)
      obtain rfl := Value.eq_of_handle? container
      obtain rfl := Value.eq_of_handle? other_container
      cases handle with
      | list first =>
        cases second with
        | list second => exact equal?_list_iff_agrees length_eq other_length_eq settled
        | object =>
          constructor
          · intro equal
            cases kind_eq_of_equal? equal
          · intro agrees
            cases agrees
      | object first =>
        cases second with
        | object second =>
          exact equal?_object_iff_agrees keyed length_eq other_length_eq settled
        | list =>
          constructor
          · intro equal
            cases kind_eq_of_equal? equal
          · intro agrees
            cases agrees

/-! ### The equivalence -/

/-- A value without cycles and without Numbers. -/
structure Comparable (heap : Heap) (value : Value) : Prop where
  acyclic : heap.Acyclic value
  no_numbers : heap.Throughout (fun inner => inner.kind ≠ .number) value

namespace Comparable

variable (comparable : heap.Comparable a)
include comparable

theorem held {inner} (holds : heap.Holds a inner) : heap.Comparable inner :=
  ⟨comparable.acyclic.held holds, comparable.no_numbers.held holds⟩

theorem equal?_self (keyed : heap.Keyed) : heap.equal? a a = some true := by
  refine equal?_of_unfold_eq comparable.acyclic (fun inner reaches => ?_) fun _ => rfl
  cases inner with
  | number => exact absurd rfl (comparable.no_numbers _ reaches)
  | object cell => exact keyed cell
  | nil | bool | integer | str | list | function => trivial

theorem equal?_iff_agrees (keyed : heap.Keyed) (other_comparable : heap.Comparable b)
    (unfolds : heap.Unfolds [] a tree) (other_unfolds : heap.Unfolds [] b other) :
    heap.equal? a b = some true ↔ tree.Agrees other :=
  unfolds.equal?_iff_agrees keyed (unfolds.marks_eq_nil_iff.mpr comparable.acyclic)
    comparable.no_numbers other_unfolds
    (other_unfolds.marks_eq_nil_iff.mpr other_comparable.acyclic)

theorem equal?_symm (keyed : heap.Keyed) (other_comparable : heap.Comparable b)
    (equal : heap.equal? a b = some true) : heap.equal? b a = some true := by
  obtain ⟨tree, unfolds⟩ := Unfolds.exists_tree heap [] a
  obtain ⟨other, other_unfolds⟩ := Unfolds.exists_tree heap [] b
  rw [comparable.equal?_iff_agrees keyed other_comparable unfolds other_unfolds] at equal
  rw [other_comparable.equal?_iff_agrees keyed comparable other_unfolds unfolds]
  exact equal.symm

theorem equal?_trans (keyed : heap.Keyed) (next_comparable : heap.Comparable b)
    (last_comparable : heap.Comparable c) (equal : heap.equal? a b = some true)
    (next : heap.equal? b c = some true) : heap.equal? a c = some true := by
  obtain ⟨tree, unfolds⟩ := Unfolds.exists_tree heap [] a
  obtain ⟨between, next_unfolds⟩ := Unfolds.exists_tree heap [] b
  obtain ⟨last, last_unfolds⟩ := Unfolds.exists_tree heap [] c
  rw [comparable.equal?_iff_agrees keyed next_comparable unfolds next_unfolds] at equal
  rw [next_comparable.equal?_iff_agrees keyed last_comparable next_unfolds last_unfolds] at next
  rw [comparable.equal?_iff_agrees keyed last_comparable unfolds last_unfolds]
  exact equal.trans next

end Comparable

theorem equal?_of_entries_perm (keyed : heap.Keyed) (comparable : heap.Comparable (.object first))
    (perm : (heap.object first).entries.Perm (heap.object second).entries) :
    heap.equal? (.object first) (.object second) = some true := by
  refine (equal?_object_iff keyed).mpr ⟨perm.map _, fun key a b a_mem b_mem => ?_⟩
  have a_found := Table.get?_of_mem (keyed first) a_mem
  have b_found := Table.get?_of_mem (keyed first) (perm.mem_iff.mpr b_mem)
  obtain rfl : a = b := Option.some.inj (a_found.symm.trans b_found)
  have holds : heap.Holds (.object first) a := ⟨.object first, rfl, mem_map_of_mem a_mem⟩
  exact (comparable.held holds).equal?_self keyed

/-- The answer to a comparison depends on the trees alone. -/
theorem equal?_eq_of_trees {elsewhere : Heap} {d} (keyed : heap.Keyed)
    (elsewhere_keyed : elsewhere.Keyed) (a_comparable : heap.Comparable a)
    (b_comparable : heap.Comparable b) (c_comparable : elsewhere.Comparable c)
    (d_comparable : elsewhere.Comparable d) (a_unfolds : heap.Unfolds [] a tree)
    (b_unfolds : heap.Unfolds [] b other) (c_unfolds : elsewhere.Unfolds [] c tree)
    (d_unfolds : elsewhere.Unfolds [] d other) : elsewhere.equal? c d = heap.equal? a b := by
  have here := a_comparable.equal?_iff_agrees keyed b_comparable a_unfolds b_unfolds
  have there := c_comparable.equal?_iff_agrees elsewhere_keyed d_comparable c_unfolds d_unfolds
  obtain ⟨answer, answered⟩ := exists_equal? a_comparable.acyclic b
  obtain ⟨other_answer, other_answered⟩ := exists_equal? c_comparable.acyclic d
  rw [answered, Option.some.injEq] at here
  rw [other_answered, Option.some.injEq] at there
  rw [answered, other_answered, Bool.eq_iff_iff.mpr (there.trans here.symm)]

/-- On values without cycles and Numbers, every comparison has an answer and equality is an
equivalence. Two of them are equal exactly if their trees agree up to the order of keys; then all
their places have values of the same kind. Values with the same trees give the same answers. -/
theorem equal?_equivalence (keyed : heap.Keyed) :
    Equivalence (fun a b : {value // heap.Comparable value} => heap.equal? a b = some true) ∧
    ∀ a b, heap.Comparable a → heap.Comparable b →
      (∃ answer, heap.equal? a b = some answer ∧ Mem.equal a b heap = .ok answer heap) ∧
      (∀ tree other, heap.Unfolds [] a tree → heap.Unfolds [] b other →
        (heap.equal? a b = some true ↔ tree.Agrees other)) ∧
      (heap.equal? a b = some true → ∀ path,
        (heap.select path a).map Value.kind = (heap.select path b).map Value.kind) ∧
      (∀ first second, a = .object first → b = .object second →
        (heap.object first).entries.Perm (heap.object second).entries →
        heap.equal? a b = some true) ∧
      ∀ (elsewhere : Heap) (c d : Value), elsewhere.Keyed → elsewhere.Comparable c →
        elsewhere.Comparable d → (∀ tree, heap.Unfolds [] a tree → elsewhere.Unfolds [] c tree) →
        (∀ tree, heap.Unfolds [] b tree → elsewhere.Unfolds [] d tree) →
        elsewhere.equal? c d = heap.equal? a b := by
  refine ⟨⟨fun a => a.2.equal?_self keyed, fun {a b} => a.2.equal?_symm keyed b.2,
    fun {a b c} => a.2.equal?_trans keyed b.2 c.2⟩, fun a b a_comparable b_comparable => ?_⟩
  refine ⟨?answer, ?trees, kind_select_of_equal? keyed, ?order, ?identity⟩
  case answer =>
    obtain ⟨answer, answered⟩ := exists_equal? a_comparable.acyclic b
    exact ⟨answer, answered, Mem.equal_eq_ok.mpr ⟨answered, rfl⟩⟩
  case trees =>
    intro tree other unfolds other_unfolds
    exact a_comparable.equal?_iff_agrees keyed b_comparable unfolds other_unfolds
  case order =>
    rintro first second rfl rfl perm
    exact equal?_of_entries_perm keyed a_comparable perm
  case identity =>
    intro elsewhere c d elsewhere_keyed c_comparable d_comparable same other_same
    obtain ⟨tree, unfolds⟩ := Unfolds.exists_tree heap [] a
    obtain ⟨other, other_unfolds⟩ := Unfolds.exists_tree heap [] b
    exact equal?_eq_of_trees keyed elsewhere_keyed a_comparable b_comparable c_comparable
      d_comparable unfolds other_unfolds (same tree unfolds) (other_same other other_unfolds)

/-- Two Objects with the same keys in another order, one of which holds a List twice. -/
def reordered : Heap where
  lists := #[{ items := #[.nil] }, { items := #[.nil] }]
  objects := #[⟨[("a", .list 0), ("b", .list 0)]⟩, ⟨[("b", .list 1), ("a", .list 0)]⟩]

def reorderedRank (value : Value) : Nat :=
  match value.kind with
  | .object => 2
  | .list => 1
  | _ => 0

/-- The Objects are equal in both directions, and their trees agree. -/
theorem equal?_equivalence_reordered :
    let heap := Heap.reordered
    heap.Keyed ∧ heap.Comparable (.object 0) ∧ heap.Comparable (.object 1) ∧
      heap.equal? (.object 0) (.object 1) = some true ∧
      heap.equal? (.object 1) (.object 0) = some true ∧
      ∃ tree other, heap.Unfolds [] (.object 0) tree ∧ heap.Unfolds [] (.object 1) other ∧
        tree.Agrees other := by
  have keyed : reordered.Keyed := by
    rintro (_ | _ | cell)
    · decide
    · decide
    · exact nodup_nil
  have comparable (value : Value) (no_number : value.kind ≠ .number) :
      reordered.Comparable value :=
    ⟨acyclic_of_rank reorderedRank (forall_contents (by decide) (by decide)) value,
      .of_forall no_number (forall_contents (by decide) (by decide))⟩
  have first := comparable (.object 0) (by decide)
  have second := comparable (.object 1) (by decide)
  obtain ⟨equivalence, all⟩ := equal?_equivalence keyed
  obtain ⟨_, trees, _⟩ := all (.object 0) (.object 1) first second
  obtain ⟨tree, unfolds⟩ := Unfolds.exists_tree reordered [] (.object 0)
  obtain ⟨other, other_unfolds⟩ := Unfolds.exists_tree reordered [] (.object 1)
  have equal : reordered.equal? (.object 0) (.object 1) = some true := by decide
  exact ⟨keyed, first, second, equal,
    equivalence.symm (x := ⟨.object 0, first⟩) (y := ⟨.object 1, second⟩) equal, tree, other,
    unfolds, other_unfolds, (trees tree other unfolds other_unfolds).mp equal⟩

end Heap

end Vimlet
