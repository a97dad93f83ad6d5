import Mathlib.Data.List.Perm.Subperm
import Vimlet.Proofs.Value.Reach

/-!
# Comparisons of values

A comparison with a value without cycles has an answer. Lists are equal if their elements are equal
one by one, and Objects if they have the same keys, in any order, with equal values.
-/

namespace Vimlet

open List

variable {heap : Heap} {a b : Value} {first second : Nat}

/-! ### Lists side by side -/

section Pairing

variable {α β : Type} {items : List α} {others : List β} {i : Nat} {item : α} {other : β}

theorem mem_zip_iff_getElem? :
    (item, other) ∈ items.zip others ↔
      ∃ i : Nat, items[i]? = some item ∧ others[i]? = some other := by
  rw [mem_iff_getElem?]
  exact exists_congr fun i => getElem?_zip_eq_some

theorem exists_getElem?_of_length_eq (length_eq : items.length = others.length)
    (found : items[i]? = some item) : ∃ other, others[i]? = some other := by
  obtain ⟨valid, -⟩ := List.getElem?_eq_some_iff.mp found
  exact ⟨_, List.getElem?_eq_getElem (length_eq ▸ valid)⟩

end Pairing

/-! ### Answers -/

variable {related : Value → Value → Option Bool} {pairs : List (Value × Value)}

theorem forall_of_allPairs (all : allPairs related pairs = some true) :
    ∀ pair ∈ pairs, related pair.1 pair.2 = some true := by
  induction pairs with
  | nil => exact forall_mem_nil _
  | cons pair rest ih =>
    rw [allPairs] at all
    split at all
    · rename_i first
      exact forall_mem_cons.mpr ⟨first, ih all⟩
    · rename_i other
      exact absurd all other

theorem exists_allPairs (each : ∀ pair ∈ pairs, ∃ answer, related pair.1 pair.2 = some answer) :
    ∃ answer, allPairs related pairs = some answer := by
  induction pairs with
  | nil => exact ⟨true, rfl⟩
  | cons pair rest ih =>
    obtain ⟨⟨first, first_eq⟩, others⟩ := forall_mem_cons.mp each
    rw [allPairs, first_eq]
    cases first with
    | true => exact ih others
    | false => exact ⟨false, rfl⟩

theorem Value.scalar_of_kind_eq (kinds : a.kind = b.kind) (scalar : b.handle? = none) :
    a.handle? = none := by
  cases a with
  | list | object => cases b <;> cases scalar <;> cases kinds
  | nil | bool | integer | number | str | function => rfl

namespace Heap

section Pairs

variable {containers : Handle × Handle} {values : List (Value × Value)}
  (compared : heap.compare a b = .pairs containers values)
include compared

theorem mem_contents_of_compare {pair} (mem : pair ∈ values) :
    pair.1 ∈ heap.contents containers.1 := by
  obtain ⟨first, second, _, _, rfl, _, rfl⟩ | ⟨first, second, _, _, rfl, _, rfl⟩ :=
    compare_pairs_cases compared
  · exact (of_mem_zip mem).1
  · obtain ⟨entry, entry_mem, rfl⟩ := mem_map.mp mem
    exact mem_map_of_mem entry_mem

/-- Two containers are equal exactly if all pairs of values that they come down to are. -/
theorem equal?_pairs :
    heap.equal? a b = some true ↔ ∀ pair ∈ values, heap.equal? pair.1 pair.2 = some true := by
  refine ⟨fun equal pair mem => ?_, equal?_of_pairs compared⟩
  obtain ⟨steps, answered⟩ := equal?_eq_some_iff.mp equal
  cases steps with
  | zero =>
    rw [equalWithin_zero compared] at answered
    cases answered
  | succ steps =>
    rw [equalWithin_succ compared] at answered
    exact equal?_eq_some_iff.mpr ⟨steps, forall_of_allPairs answered pair mem⟩

end Pairs

theorem exists_equal? (acyclic : heap.Acyclic a) (b : Value) :
    ∃ answer, heap.equal? a b = some answer := by
  refine acyclic.induct (motive := fun a => ∀ b, ∃ answer, heap.equal? a b = some answer) ?_ b
  intro a _ ih b
  cases compared : heap.compare a b with
  | answer equal => exact ⟨equal, equal?_answer compared⟩
  | pairs containers values =>
    have each : ∀ pair ∈ values, ∃ answer,
        heap.equalWithin (heap.size * heap.size + 1) pair.1 pair.2 = some answer := by
      intro pair mem
      have holds : heap.Holds a pair.1 := by
        rw [(eq_value_of_compare compared).1]
        exact .of_mem (mem_contents_of_compare compared mem)
      obtain ⟨answer, answered⟩ := ih pair.1 holds pair.2
      exact ⟨answer, equalWithin_of_equalFrom answered⟩
    obtain ⟨answer, answered⟩ := exists_allPairs each
    refine ⟨answer, equal?_eq_some_iff.mpr ⟨heap.size * heap.size + 1 + 1, ?_⟩⟩
    rw [equalWithin_succ compared, answered]

/-! ### Kinds, Lists and Objects -/

theorem kind_eq_of_equal? (equal : heap.equal? a b = some true) : a.kind = b.kind := by
  by_contra different
  have compared : heap.compare a b = .answer false := by
    cases a <;> cases b <;> first | rfl | exact absurd rfl different
  rw [equal?_answer compared] at equal
  cases equal

theorem equal?_list_iff :
    heap.equal? (.list first) (.list second) = some true ↔
      (heap.list first).length = (heap.list second).length ∧
      ∀ (i : Nat) (a b : Value), (heap.list first)[i]? = some a →
        (heap.list second)[i]? = some b → heap.equal? a b = some true := by
  by_cases same : (heap.list first).length = (heap.list second).length
  · have compared : heap.compare (.list first) (.list second) =
        .pairs (.list first, .list second) ((heap.list first).zip (heap.list second)) := by
      rw [compare, if_pos (by simpa using same)]
    rw [equal?_pairs compared]
    constructor
    · intro all
      exact ⟨same, fun i a b a_at b_at => all (a, b) (mem_zip_iff_getElem?.mpr ⟨i, a_at, b_at⟩)⟩
    · rintro ⟨-, all⟩ ⟨a, b⟩ mem
      obtain ⟨i, a_at, b_at⟩ := mem_zip_iff_getElem?.mp mem
      exact all i a b a_at b_at
  · have compared : heap.compare (.list first) (.list second) = .answer false := by
      rw [compare, if_neg (by simpa using same)]
    simp [equal?_answer compared, same]

theorem sameKeys_iff_perm {table other} (distinct : table.keys.Nodup) :
    sameKeys table other = true ↔ table.keys.Perm other.keys := by
  have size_eq (table : Table String Value) : table.size = table.keys.length := by
    simp [Table.size, Table.keys]
  rw [sameKeys, Bool.and_eq_true, beq_iff_eq, all_eq_true, size_eq, size_eq]
  constructor
  · rintro ⟨sizes, contained⟩
    have subset : table.keys ⊆ other.keys := fun key mem =>
      Table.contains_iff.mp (contained key mem)
    exact (subperm_of_subset distinct subset).perm_of_length_le sizes.ge
  · intro perm
    exact ⟨perm.length_eq, fun key mem => Table.contains_iff.mpr (perm.mem_iff.mp mem)⟩

theorem equal?_object_iff (keyed : heap.Keyed) :
    heap.equal? (.object first) (.object second) = some true ↔
      (heap.object first).keys.Perm (heap.object second).keys ∧
      ∀ key a b, (key, a) ∈ (heap.object first).entries → (key, b) ∈ (heap.object second).entries →
        heap.equal? a b = some true := by
  rw [← sameKeys_iff_perm (keyed first)]
  by_cases same : sameKeys (heap.object first) (heap.object second) = true
  · have compared : heap.compare (.object first) (.object second) =
        .pairs (.object first, .object second)
          (pairedValues (heap.object first) (heap.object second)) := by
      rw [compare, if_pos same]
    have found (key : String) (b : Value) :
        (key, b) ∈ (heap.object second).entries ↔ (heap.object second).get? key = some b :=
      (Table.get?_eq_some_iff (keyed second)).symm
    rw [equal?_pairs compared, and_iff_right same, pairedValues, forall_mem_map]
    constructor
    · intro all key a b a_mem b_mem
      have equal : heap.equal? a (((heap.object second).get? key).getD .nil) = some true :=
        all (key, a) a_mem
      rwa [(found key b).mp b_mem] at equal
    · rintro all ⟨key, a⟩ mem
      have key_mem : key ∈ (heap.object second).keys :=
        ((sameKeys_iff_perm (keyed first)).mp same).mem_iff.mp (mem_map_of_mem mem)
      obtain ⟨⟨_, b⟩, b_mem, rfl⟩ := mem_map.mp key_mem
      change heap.equal? a (((heap.object second).get? _).getD .nil) = some true
      rw [(found _ b).mp b_mem]
      exact all _ a b mem b_mem
  · have compared : heap.compare (.object first) (.object second) = .answer false := by
      rw [compare, if_neg same]
    simp [equal?_answer compared, same]

end Heap

/-! ### Places inside of values -/

/-- A step into a container: to a position of a List or to a key of an Object. -/
inductive Selector where
  | item (position : Nat)
  | entry (key : String)
deriving DecidableEq, Repr

namespace Heap

/-- What a container holds at a position or under a key. -/
def part? (heap : Heap) : Value → Selector → Option Value
  | .list cell, .item position => (heap.list cell)[position]?
  | .object cell, .entry key => (heap.object cell).get? key
  | _, _ => none

/-- What lies at the end of a path into a value. -/
def select (heap : Heap) : List Selector → Value → Option Value
  | [], value => some value
  | selector :: path, value => (heap.part? value selector).bind (heap.select path)

theorem part?_of_equal? (keyed : heap.Keyed) (equal : heap.equal? a b = some true)
    (selector : Selector) :
    (heap.part? a selector = none ∧ heap.part? b selector = none) ∨
      ∃ part other, heap.part? a selector = some part ∧ heap.part? b selector = some other ∧
        heap.equal? part other = some true := by
  have kinds := kind_eq_of_equal? equal
  cases a with
  | list first =>
    obtain ⟨second, rfl⟩ : ∃ second, b = .list second := by
      cases b <;> cases kinds
      exact ⟨_, rfl⟩
    cases selector with
    | entry => exact .inl ⟨rfl, rfl⟩
    | item position =>
      obtain ⟨length_eq, all⟩ := equal?_list_iff.mp equal
      cases found : (heap.list first)[position]? with
      | none =>
        have beyond := getElem?_eq_none_iff.mp found
        exact .inl ⟨found, getElem?_eq_none (length_eq ▸ beyond)⟩
      | some part =>
        obtain ⟨other, other_found⟩ := exists_getElem?_of_length_eq length_eq found
        exact .inr ⟨part, other, found, other_found, all position _ _ found other_found⟩
  | object first =>
    obtain ⟨second, rfl⟩ : ∃ second, b = .object second := by
      cases b <;> cases kinds
      exact ⟨_, rfl⟩
    cases selector with
    | item => exact .inl ⟨rfl, rfl⟩
    | entry key =>
      obtain ⟨perm, all⟩ := (equal?_object_iff keyed).mp equal
      cases found : (heap.object first).get? key with
      | none =>
        have absent : key ∉ (heap.object second).keys := by
          rw [← perm.mem_iff, ← Table.contains_iff, Table.contains, found]
          simp
        exact .inl ⟨found, Table.get?_eq_none absent⟩
      | some part =>
        have mem := (Table.get?_eq_some_iff (keyed first)).mp found
        obtain ⟨⟨_, other⟩, other_mem, rfl⟩ := mem_map.mp
          (perm.mem_iff.mp (mem_map_of_mem mem))
        have other_found := (Table.get?_eq_some_iff (keyed second)).mpr other_mem
        exact .inr ⟨part, other, found, other_found, all _ _ _ mem other_mem⟩
  | nil | bool | integer | number | str | function =>
    cases b <;> cases kinds
    exact .inl ⟨rfl, rfl⟩

/-- Equal values have values of the same kind at all places. -/
theorem kind_select_of_equal? (keyed : heap.Keyed) (equal : heap.equal? a b = some true)
    (path : List Selector) :
    (heap.select path a).map Value.kind = (heap.select path b).map Value.kind := by
  induction path generalizing a b with
  | nil => exact congrArg some (kind_eq_of_equal? equal)
  | cons selector path ih =>
    rw [select, select]
    obtain ⟨absent, other_absent⟩ | ⟨part, other, found, other_found, equal⟩ :=
      part?_of_equal? keyed equal selector
    · rw [absent, other_absent]
    · rw [found, other_found]
      exact ih equal

end Heap

end Vimlet
