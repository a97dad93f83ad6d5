import Mathlib.Logic.Relation
import Vimlet.Proofs.Table
import Vimlet.Proofs.Value.Correspondence

/-!
# Values without cycles

The tree of a value has marks exactly if some container that can be reached from the value can reach
itself. Two values without cycles and with the same unfoldings are equal.
-/

namespace Vimlet

open List

variable {heap small big : Heap} {value inner a b : Value} {property motive : Value → Prop}
  {handle : Handle}

open Relation

/-! ### Inside of values -/

/-- A value is a container that holds another value. -/
def Heap.Holds (heap : Heap) (outer inner : Value) : Prop :=
  ∃ handle, outer.handle? = some handle ∧ inner ∈ heap.contents handle

theorem Heap.Holds.of_mem {held} (mem : held ∈ heap.contents handle) :
    heap.Holds handle.value held :=
  ⟨handle, handle.handle?_value, mem⟩

/-- A container is a value or lies inside of it. -/
def Heap.Reaches (heap : Heap) (value : Value) (handle : Handle) : Prop :=
  ReflTransGen heap.Holds value handle.value

/-- A property of a value and of all values inside of it. -/
def Heap.Throughout (heap : Heap) (property : Value → Prop) (value : Value) : Prop :=
  ∀ inner, ReflTransGen heap.Holds value inner → property inner

/-- No container in a value lies inside itself. -/
def Heap.Acyclic (heap : Heap) : Value → Prop :=
  heap.Throughout fun inner => ¬TransGen heap.Holds inner inner

namespace Heap.Throughout

theorem self (throughout : heap.Throughout property value) : property value :=
  throughout value .refl

theorem held (throughout : heap.Throughout property value) (holds : heap.Holds value inner) :
    heap.Throughout property inner :=
  fun deeper reaches => throughout deeper (.head holds reaches)

theorem of_forall (own : property value)
    (inside : ∀ handle, ∀ inner ∈ heap.contents handle, property inner) :
    heap.Throughout property value := by
  intro inner reaches
  obtain rfl | ⟨outer, _, handle, _, mem⟩ := ReflTransGen.cases_tail reaches
  · exact own
  · exact inside handle inner mem

end Heap.Throughout

/-- There are no cycles if containers can be ranked above what they hold. -/
theorem Heap.acyclic_of_rank (rank : Value → Nat)
    (lower : ∀ handle, ∀ inner ∈ heap.contents handle, rank inner < rank handle.value)
    (value : Value) : heap.Acyclic value := by
  intro inner _ cycle
  have below {outer inner : Value} (inside : TransGen heap.Holds outer inner) :
      rank inner < rank outer := by
    have step {outer inner : Value} (holds : heap.Holds outer inner) : rank inner < rank outer := by
      obtain ⟨handle, handle_eq, mem⟩ := holds
      rw [Value.eq_of_handle? handle_eq]
      exact lower handle inner mem
    induction inside with
    | single holds => exact step holds
    | tail _ holds ih => exact (step holds).trans ih
  exact Nat.lt_irrefl _ (below cycle)

/-! ### Marks and cycles -/

theorem Heap.Acyclic.of_held (held : ∀ inner, heap.Holds value inner → heap.Acyclic inner) :
    heap.Acyclic value := by
  intro inner reaches cycle
  obtain rfl | ⟨next, holds, rest⟩ := ReflTransGen.cases_head reaches
  · obtain ⟨next, holds, rest⟩ := TransGen.head'_iff.mp cycle
    exact held next holds value rest cycle
  · exact held next holds inner rest cycle

theorem Heap.acyclic_iff :
    heap.Acyclic value ↔
      ¬∃ handle, heap.Reaches value handle ∧ TransGen heap.Holds handle.value handle.value := by
  constructor
  · rintro acyclic ⟨handle, reaches, cycle⟩
    exact acyclic handle.value reaches cycle
  · intro none_inside inner reaches cycle
    obtain ⟨_, ⟨handle, container, _⟩, _⟩ := TransGen.head'_iff.mp cycle
    obtain rfl := Value.eq_of_handle? container
    exact none_inside ⟨handle, reaches, cycle⟩

namespace Heap.Unfolds

variable {around : List Handle} {tree : Value.Tree}

/-- A mark stands for a container that can reach itself. -/
theorem cycle_of_mark (unfolds : heap.Unfolds around value tree) {handle : Handle}
    (above : ∀ outer ∈ around, TransGen heap.Holds outer.value value)
    (marked : handle ∈ tree.marks) :
    heap.Reaches value handle ∧ TransGen heap.Holds handle.value handle.value := by
  induction unfolds with
  | leaf => simp [Value.Tree.marks] at marked
  | mark container again =>
    obtain rfl : handle = _ := by simpa [Value.Tree.marks] using marked
    obtain rfl := Value.eq_of_handle? container
    exact ⟨.refl, above handle again⟩
  | @node _ value outer branches container _ length_eq _ ih =>
    obtain rfl := Value.eq_of_handle? container
    have found : ∀ branch ∈ branches, handle ∈ branch.marks →
        heap.Reaches outer.value handle ∧ TransGen heap.Holds handle.value handle.value := by
      refine forall_of_forall₂ (forall₂_of_zip length_eq ih) ?_
      rintro held branch ⟨⟨mem, _⟩, ih⟩ marked
      -- every container around a branch leads to it, the node itself in one step
      have holds : heap.Holds outer.value held := .of_mem mem
      obtain ⟨reaches, cycle⟩ := ih
        (forall_mem_cons.mpr ⟨.single holds, fun _ mem => (above _ mem).tail holds⟩) marked
      exact ⟨.head holds reaches, cycle⟩
    rw [Value.Tree.marks] at marked
    obtain ⟨branch, mem, marked⟩ := mem_flatMap.mp marked
    exact found branch mem marked

theorem induct_holds
    (step : ∀ value, (∀ inner, heap.Holds value inner → motive inner) → motive value)
    (unfolds : heap.Unfolds around value tree) (unmarked : tree.marks = []) : motive value := by
  refine unfolds.unmarked_induct (motive := fun value _ => motive value) ?_ ?_ unmarked
  · refine fun value scalar => step value fun inner ⟨handle, container, _⟩ => ?_
    cases scalar.symm.trans container
  · refine fun outer branches inside => step _ fun inner ⟨handle, container, mem⟩ => ?_
    obtain rfl := Option.some.inj (outer.handle?_value.symm.trans container)
    exact forall_of_forall₂ inside.flip (fun _ _ good => good.2) inner mem

theorem marks_eq_nil_iff (unfolds : heap.Unfolds [] value tree) :
    tree.marks = [] ↔ heap.Acyclic value := by
  refine ⟨unfolds.induct_holds fun _ => .of_held, fun acyclic => ?_⟩
  refine eq_nil_iff_forall_not_mem.mpr fun handle marked => ?_
  obtain ⟨reaches, cycle⟩ := unfolds.cycle_of_mark nofun marked
  exact acyclic handle.value reaches cycle

end Heap.Unfolds

/-- What carries over from the contents of a container to the container holds of every value without
cycles. -/
theorem Heap.Acyclic.induct
    (step : ∀ value, heap.Acyclic value → (∀ inner, heap.Holds value inner → motive inner) →
      motive value) (acyclic : heap.Acyclic value) : motive value := by
  obtain ⟨tree, unfolds⟩ := Unfolds.exists_tree heap [] value
  refine unfolds.induct_holds (motive := fun value => heap.Acyclic value → motive value) ?_
    (unfolds.marks_eq_nil_iff.mpr acyclic) acyclic
  intro value ih acyclic
  exact step value acyclic fun inner holds => ih inner holds (acyclic.held holds)

/-! ### Growth -/

namespace Heap.Grows

variable (grows : small.Grows big) (closed : small.Closed)
include grows closed
variable {outer : Value}

theorem holds (valid : outer.In small) (holds : big.Holds outer inner) :
    small.Holds outer inner ∧ inner.In small := by
  obtain ⟨handle, handle_eq, mem⟩ := holds
  rw [grows.contents_eq (valid handle handle_eq)] at mem
  exact ⟨⟨handle, handle_eq, mem⟩, closed handle inner mem⟩

theorem reaches (valid : outer.In small) (reaches : ReflTransGen big.Holds outer inner) :
    ReflTransGen small.Holds outer inner ∧ inner.In small := by
  induction reaches with
  | refl => exact ⟨.refl, valid⟩
  | tail _ last ih =>
    obtain ⟨step, inner_valid⟩ := grows.holds closed ih.2 last
    exact ⟨ih.1.tail step, inner_valid⟩

theorem throughout {later : Value → Prop} (valid : value.In small)
    (keep : ∀ inner, inner.In small → property inner → later inner)
    (throughout : small.Throughout property value) : big.Throughout later value := by
  intro inner reaches
  obtain ⟨small_reaches, inner_valid⟩ := grows.reaches closed valid reaches
  exact keep inner inner_valid (throughout inner small_reaches)

theorem acyclic (valid : value.In small) (acyclic : small.Acyclic value) : big.Acyclic value := by
  intro inner reaches cycle
  obtain ⟨small_reaches, inner_valid⟩ := grows.reaches closed valid reaches
  obtain ⟨next, first, rest⟩ := TransGen.head'_iff.mp cycle
  obtain ⟨small_first, next_valid⟩ := grows.holds closed inner_valid first
  exact acyclic inner small_reaches
    (.head' small_first (grows.reaches closed next_valid rest).1)

theorem unfold_eq (valid : value.In small) (depth : Nat) :
    big.unfold depth value = small.unfold depth value :=
  (Twins.mk closed grows (.refl small)).unfold_eq (.old valid) depth

end Heap.Grows

/-! ### Equality -/

/-- No Object has a key twice. -/
def Heap.Keyed (heap : Heap) : Prop := ∀ cell, (heap.object cell).keys.Nodup

/-- A value that is equal to itself, but for what it holds. -/
def Heap.Definite (heap : Heap) : Value → Prop
  | .number x => (x == x) = true
  | .object cell => (heap.object cell).keys.Nodup
  | _ => True

theorem Heap.Grows.definite (grows : small.Grows big) (valid : value.In small)
    (definite : small.Definite value) : big.Definite value := by
  cases value with
  | object cell =>
    change (big.object cell).keys.Nodup
    rw [grows.object_eq (valid (.object cell) rfl)]
    exact definite
  | nil | bool | integer | number | str | list | function => exact definite

theorem allPairs_eq_true {related : Value → Value → Option Bool} {pairs}
    (all : ∀ pair ∈ pairs, related pair.1 pair.2 = some true) :
    allPairs related pairs = some true := by
  induction pairs with
  | nil => rfl
  | cons pair rest ih =>
    obtain ⟨first, others⟩ := forall_mem_cons.mp all
    rw [allPairs, first]
    exact ih others

theorem forall₂_of_map_eq {α β γ : Type} {f : Nat → α → γ} {g : Nat → β → γ} {items others}
    (same : ∀ depth, items.map (f depth) = others.map (g depth)) :
    Forall₂ (fun item other => ∀ depth, f depth item = g depth other) items others := by
  induction items generalizing others with
  | nil =>
    obtain rfl := map_eq_nil_iff.mp (same 0).symm
    exact .nil
  | cons item items ih =>
    cases others with
    | nil => cases same 0
    | cons other others =>
      exact .cons (fun depth => (List.cons.inj (same depth)).1)
        (ih fun depth => (List.cons.inj (same depth)).2)

namespace Heap

theorem compare_self (scalar : value.handle? = none) (definite : heap.Definite value) :
    heap.compare value value = .answer true := by
  cases value with
  | nil => rfl
  | bool | integer | str => simp [compare]
  | number x => exact congrArg Comparison.answer definite
  | function ref => simp [compare, FuncRef.agrees]
  | list | object => cases scalar

variable {table other : Table String Value}

theorem sameKeys_of_eq (distinct : other.keys.Nodup) (same : table.keys = other.keys) :
    sameKeys table other = true := by
  have sizes : table.size = other.size := by
    simpa [Table.keys, Table.size] using congrArg length same
  rw [sameKeys, sizes, same, Bool.and_eq_true]
  refine ⟨beq_self_eq_true _, all_eq_true.mpr fun key mem => ?_⟩
  obtain ⟨entry, entry_mem, rfl⟩ := mem_map.mp mem
  rw [Table.contains, Table.get?_of_mem distinct entry_mem]
  rfl

theorem pairedValues_eq_zip (distinct : other.keys.Nodup) (same : table.keys = other.keys) :
    pairedValues table other = table.values.zip other.values := by
  have sizes : table.entries.length = other.entries.length := by
    simpa [Table.keys] using congrArg length same
  refine ext_getElem (by simp [pairedValues, Table.values, sizes]) fun i left right => ?_
  have valid : i < table.entries.length := by simpa [pairedValues] using left
  have other_valid : i < other.entries.length := sizes ▸ valid
  have key_eq : table.entries[i].1 = other.entries[i].1 := by
    have keys := getElem_of_eq same (i := i) (by simpa [Table.keys] using valid)
    simpa [Table.keys] using keys
  have found := Table.get?_of_mem distinct (getElem_mem other_valid)
  simp [pairedValues, Table.values, key_eq, found]

section Unfoldings

variable (same : ∀ depth, heap.unfold depth a = heap.unfold depth b)
include same

theorem eq_of_unfold_eq (scalar : a.handle? = none) : a = b := by
  have once := same 1
  cases a <;> cases scalar <;> cases b <;> cases once <;> rfl

/-- The comparison of containers with the same unfoldings comes down to their contents, which have
the same unfoldings too. -/
theorem compare_of_unfold_eq (definite : heap.Definite a) {first}
    (first_eq : a.handle? = some first) :
    ∃ second, heap.compare a b = .pairs (first, second)
        ((heap.contents first).zip (heap.contents second)) ∧
      Forall₂ (fun item other => ∀ depth, heap.unfold depth item = heap.unfold depth other)
        (heap.contents first) (heap.contents second) := by
  cases a with
  | nil | bool | integer | number | str | function => cases first_eq
  | list cell =>
    cases first_eq
    cases b with
    | list other =>
      have items := forall₂_of_map_eq fun depth => Unfolding.list.inj (same (depth + 1))
      refine ⟨.list other, ?_, items⟩
      rw [compare, if_pos (by simpa using items.length_eq)]
      rfl
    | nil | bool | integer | number | str | object | function => cases same 1
  | object cell =>
    cases first_eq
    cases b with
    | object other =>
      have entries := forall₂_of_map_eq fun depth => Unfolding.object.inj (same (depth + 1))
      have keys : (heap.object cell).keys = (heap.object other).keys :=
        map_eq_map_of_forall₂ entries fun _ _ _ _ same => (Prod.mk.inj (same 0)).1
      have distinct : (heap.object other).keys.Nodup := keys ▸ definite
      refine ⟨.object other, ?_, ?_⟩
      · rw [compare, if_pos (sameKeys_of_eq distinct keys), pairedValues_eq_zip distinct keys]
        rfl
      · refine forall₂_map_left_iff.mpr (forall₂_map_right_iff.mpr (entries.imp ?_))
        exact fun _ _ same depth => (Prod.mk.inj (same depth)).2
    | nil | bool | integer | number | str | list | function => cases same 1

end Unfoldings

theorem equal?_answer {equal} (compared : heap.compare a b = .answer equal) :
    heap.equal? a b = some equal :=
  equalFrom_answer compared _ _

theorem equal?_of_pairs {containers values} (compared : heap.compare a b = .pairs containers values)
    (each : ∀ pair ∈ values, heap.equal? pair.1 pair.2 = some true) :
    heap.equal? a b = some true := by
  refine equal?_eq_some_iff.mpr ⟨heap.size * heap.size + 1 + 1, ?_⟩
  rw [equalWithin_succ compared]
  exact allPairs_eq_true fun pair mem => equalWithin_of_equalFrom (each pair mem)

theorem equal?_of_unfold_eq (acyclic : heap.Acyclic a) (definite : heap.Throughout heap.Definite a)
    (same : ∀ depth, heap.unfold depth a = heap.unfold depth b) : heap.equal? a b = some true := by
  refine acyclic.induct (motive := fun a => ∀ b, heap.Throughout heap.Definite a →
    (∀ depth, heap.unfold depth a = heap.unfold depth b) → heap.equal? a b = some true) ?_ b definite
    same
  intro a _ ih b definite same
  cases container : a.handle? with
  | none =>
    obtain rfl := eq_of_unfold_eq same container
    exact equal?_answer (compare_self container definite.self)
  | some first =>
    obtain ⟨second, compared, contents⟩ := compare_of_unfold_eq same definite.self container
    refine equal?_of_pairs compared fun pair mem => ?_
    have holds : heap.Holds a pair.1 := ⟨first, container, (of_mem_zip mem).1⟩
    exact ih pair.1 holds pair.2 (definite.held holds) ((forall₂_iff_zip.mp contents).2 mem)

end Heap

end Vimlet
