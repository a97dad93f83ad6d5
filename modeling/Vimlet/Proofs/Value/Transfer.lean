import Vimlet.Proofs.Session.Ending
import Vimlet.Proofs.Value.Correspondence
import Vimlet.Value.Arithmetic
import Vimlet.Value.Container

/-!
# Operators on values that correspond

An operator that gives a value in one heap gives a value that corresponds to it in the other, if its
operands correspond.
-/

namespace Vimlet

open Heap Table Value
open List hiding contains

variable {base left right : Heap} {a b other_a other_b key value result last : Value}
  {items others : List Value}

theorem allPairs_eq {related other : Value → Value → Option Bool} {pairs other_pairs}
    (same : Forall₂
      (fun pair other_pair => related pair.1 pair.2 = other other_pair.1 other_pair.2)
      pairs other_pairs) : allPairs related pairs = allPairs other other_pairs := by
  induction same with
  | nil => rfl
  | cons head _ ih => rw [allPairs, allPairs, head, ih]

variable {α β : Type} {related : α → β → Prop}

theorem forall₂_zip {γ δ : Type} {other_related : γ → δ → Prop}
    {firsts firsts_other seconds seconds_other} (first : Forall₂ related firsts firsts_other)
    (second : Forall₂ other_related seconds seconds_other) :
    Forall₂ (fun pair other => related pair.1 other.1 ∧ other_related pair.2 other.2)
      (firsts.zip seconds) (firsts_other.zip seconds_other) := by
  induction first generalizing seconds seconds_other with
  | nil => exact .nil
  | cons head _ ih =>
    cases second with
    | nil => exact .nil
    | cons second_head second_rest => exact .cons ⟨head, second_head⟩ (ih second_rest)

theorem isEmpty_eq_of_forall₂ {items others} (all : Forall₂ related items others) :
    items.isEmpty = others.isEmpty := by
  cases all <;> rfl

section Tables

variable {related : Value → Value → Prop} {entries others : List (String × Value)}
  (same : Forall₂ (SameEntry related) entries others)
include same

theorem lookup_related (key : String) :
    Option.Rel related (entries.lookup key) (others.lookup key) := by
  induction same with
  | nil => exact .none
  | cons head _ ih =>
    rename_i entry other _ _ _
    obtain ⟨key_eq, value_related⟩ := head
    rw [lookup_cons, lookup_cons, ← key_eq]
    split
    · exact .some value_related
    · exact ih

theorem contains_eq (key : String) :
    contains ⟨entries⟩ key = contains ⟨others⟩ key := by
  have found := lookup_related same key
  unfold contains get?
  generalize entries.lookup key = mine, others.lookup key = theirs at found
  cases found with
  | some => rfl
  | none => rfl

theorem getD_related (nil_related : related .nil .nil) (key : String) :
    related ((get? ⟨entries⟩ key).getD .nil) ((get? ⟨others⟩ key).getD .nil) := by
  have found := lookup_related same key
  unfold get?
  generalize entries.lookup key = mine, others.lookup key = theirs at found
  cases found with
  | some both => exact both
  | none => exact nil_related

theorem put_related {key other} (value_related : related value other) :
    Forall₂ (SameEntry related) (put key value entries)
      (put key other others) := by
  induction same with
  | nil => exact .cons ⟨rfl, value_related⟩ .nil
  | cons head rest ih =>
    rw [put, put, head.1]
    split
    · exact .cons ⟨rfl, value_related⟩ rest
    · exact .cons head ih

theorem ofList_related :
    Forall₂ (SameEntry related) (ofList entries).entries
      (ofList others).entries := by
  have fold (table table_other : Table String Value)
      (tables : Forall₂ (SameEntry related) table.entries table_other.entries) :
      Forall₂ (SameEntry related)
        (entries.foldl (fun table entry => table.insert entry.1 entry.2) table).entries
        (others.foldl (fun table entry => table.insert entry.1 entry.2) table_other).entries := by
    induction same generalizing table table_other with
    | nil => exact tables
    | cons head _ ih =>
      rw [foldl_cons, foldl_cons, head.1]
      exact ih _ _ (put_related tables head.2)
  exact fold .empty .empty .nil

end Tables

section Pairs

variable {related : Value → Value → Prop}
  {first first_other second second_other : Table String Value}
  (first_same : Forall₂ (SameEntry related) first.entries first_other.entries)
  (second_same : Forall₂ (SameEntry related) second.entries second_other.entries)
include first_same second_same

theorem sameKeys_eq : sameKeys first second = sameKeys first_other second_other := by
  have keys_eq : first.keys = first_other.keys :=
    map_eq_map_of_forall₂ first_same fun _ _ _ _ same => same.1
  have contains_eq : second.contains = second_other.contains := funext (contains_eq second_same)
  have sizes : first.size = first_other.size ∧ second.size = second_other.size :=
    ⟨first_same.length_eq, second_same.length_eq⟩
  rw [sameKeys, sameKeys, keys_eq, contains_eq, sizes.1, sizes.2]

theorem pairedValues_related (nil_related : related .nil .nil) :
    Forall₂ (fun pair other => related pair.1 other.1 ∧ related pair.2 other.2)
      (pairedValues first second) (pairedValues first_other second_other) := by
  refine forall₂_map_left_iff.mpr (forall₂_map_right_iff.mpr (first_same.imp ?_))
  rintro ⟨key, value⟩ ⟨_, other⟩ ⟨rfl, value_related⟩
  exact ⟨value_related, getD_related second_same nil_related key⟩

end Pairs

namespace Twins

variable (twins : Twins base left right) (first : Correspond base left right a other_a)
  (second : Correspond base left right b other_b)

/-! ### Comparisons -/

section Comparisons

include twins first second

/-- Comparisons of values that correspond come down to the same answer or to pairs that correspond.
-/
theorem compare_cases :
    (∃ equal, left.compare a b = .answer equal ∧ right.compare other_a other_b = .answer equal) ∨
      ∃ containers other_containers values other_values,
        left.compare a b = .pairs containers values ∧
        right.compare other_a other_b = .pairs other_containers other_values ∧
        Forall₂ (fun pair other => Correspond base left right pair.1 other.1 ∧
          Correspond base left right pair.2 other.2) values other_values := by
  cases a with
  | list cell =>
    obtain ⟨other, rfl, items⟩ := twins.list first
    cases b with
    | list second_cell =>
      obtain ⟨second_other, rfl, second_items⟩ := twins.list second
      simp only [Heap.compare, items.length_eq, second_items.length_eq]
      split
      · exact .inr ⟨_, _, _, _, rfl, rfl, forall₂_zip items second_items⟩
      · exact .inl ⟨false, rfl, rfl⟩
    | object second_cell =>
      obtain ⟨second_other, rfl, _⟩ := twins.object second
      exact .inl ⟨false, rfl, rfl⟩
    | nil | bool | integer | number | str | function =>
      obtain rfl := second.eq_of_scalar rfl
      exact .inl ⟨false, rfl, rfl⟩
  | object cell =>
    obtain ⟨other, rfl, entries⟩ := twins.object first
    cases b with
    | list second_cell =>
      obtain ⟨second_other, rfl, _⟩ := twins.list second
      exact .inl ⟨false, rfl, rfl⟩
    | object second_cell =>
      obtain ⟨second_other, rfl, second_entries⟩ := twins.object second
      have same_keys := sameKeys_eq entries second_entries
      simp only [Heap.compare, same_keys]
      split
      · exact .inr ⟨_, _, _, _, rfl, rfl, pairedValues_related entries second_entries (.old
          (in_of_scalar rfl))⟩
      · exact .inl ⟨false, rfl, rfl⟩
    | nil | bool | integer | number | str | function =>
      obtain rfl := second.eq_of_scalar rfl
      exact .inl ⟨false, rfl, rfl⟩
  | nil | bool | integer | number | str | function =>
    obtain rfl := first.eq_of_scalar rfl
    cases b with
    | list second_cell =>
      obtain ⟨second_other, rfl, _⟩ := twins.list second
      exact .inl ⟨_, rfl, rfl⟩
    | object second_cell =>
      obtain ⟨second_other, rfl, _⟩ := twins.object second
      exact .inl ⟨_, rfl, rfl⟩
    | nil | bool | integer | number | str | function =>
      obtain rfl := second.eq_of_scalar rfl
      exact .inl ⟨_, rfl, rfl⟩

theorem equalWithin_eq (steps : Nat) :
    left.equalWithin steps a b = right.equalWithin steps other_a other_b := by
  induction steps generalizing a b other_a other_b with
  | zero =>
    obtain ⟨equal, compared, other_compared⟩ | ⟨_, _, _, _, compared, other_compared, _⟩ :=
      twins.compare_cases first second
    · rw [equalWithin_answer compared, equalWithin_answer other_compared]
    · rw [equalWithin_zero compared, equalWithin_zero other_compared]
  | succ steps ih =>
    obtain ⟨equal, compared, other_compared⟩ | ⟨_, _, _, _, compared, other_compared, pairs⟩ :=
      twins.compare_cases first second
    · rw [equalWithin_answer compared, equalWithin_answer other_compared]
    · rw [equalWithin_succ compared, equalWithin_succ other_compared]
      exact allPairs_eq (pairs.imp fun _ _ same => ih same.1 same.2)

theorem equal?_eq : left.equal? a b = right.equal? other_a other_b := by
  refine Option.ext fun answer => ?_
  rw [equal?_eq_some_iff, equal?_eq_some_iff]
  exact exists_congr fun steps => by rw [twins.equalWithin_eq first second]

end Comparisons

include twins first in
theorem truthOf_eq (functionExists : FuncRef → Bool) :
    left.truthOf functionExists a = right.truthOf functionExists other_a := by
  cases a with
  | list cell =>
    obtain ⟨other, rfl, items⟩ := twins.list first
    simp only [truthOf, isEmpty_eq_of_forall₂ items]
  | object cell =>
    obtain ⟨other, rfl, entries⟩ := twins.object first
    simp only [truthOf, isEmpty_eq_of_forall₂ entries]
  | nil | bool | integer | number | str | function =>
    obtain rfl := first.eq_of_scalar rfl
    rfl

end Twins

/-! ### Arithmetic -/

namespace Value

theorem toNumber_ok {x} (done : a.toNumber = .ok x) : a.handle? = none := by
  cases a with
  | list | object => cases done
  | nil | bool | integer | number | str | function => rfl

theorem toInt_ok {n} (done : a.toInt = .ok n) : a.handle? = none := by
  cases a with
  | list | object => cases done
  | nil | bool | integer | number | str | function => rfl

theorem arithmetic_ok {onInts : Int → Int → Except Fault Int}
    {onNumbers : Float → Float → Except Fault Float}
    (done : arithmetic onInts onNumbers a b = .ok result) :
    a.handle? = none ∧ b.handle? = none ∧ result.handle? = none := by
  unfold arithmetic at done
  split at done
  · rename_i m n
    cases computed : onInts m n with
    | error => rw [computed] at done; cases done
    | ok value =>
      rw [computed] at done
      cases done
      exact ⟨rfl, rfl, rfl⟩
  · cases a_number : a.toNumber with
    | error => rw [a_number] at done; cases done
    | ok x =>
      cases b_number : b.toNumber with
      | error => rw [a_number, b_number] at done; cases done
      | ok y =>
        simp only [a_number, b_number, bind, Except.bind] at done
        cases computed : onNumbers x y with
        | error => rw [computed] at done; cases done
        | ok value =>
          rw [computed] at done
          cases done
          exact ⟨toNumber_ok a_number, toNumber_ok b_number, rfl⟩

theorem negate_ok (done : a.negate = .ok result) : a.handle? = none ∧ result.handle? = none := by
  cases a with
  | list | object => cases done
  | nil | bool | integer | number => cases done; exact ⟨rfl, rfl⟩
  | str | function => cases done

theorem less_eq_false (container : a.handle?.isSome) (b : Value) :
    a.less b = false ∧ b.less a = false := by
  cases a <;> cases container <;> cases b <;> exact ⟨rfl, rfl⟩

theorem lessEq_eq_false (container : a.handle?.isSome) (b : Value) :
    a.lessEq b = false ∧ b.lessEq a = false := by
  cases a <;> cases container <;> cases b <;> exact ⟨rfl, rfl⟩

end Value

theorem Correspond.isNumeric_eq (same : Correspond base left right a other_a) :
    a.isNumeric = other_a.isNumeric := by
  have not_numeric {value : Value} (container : value.handle?.isSome) :
      value.isNumeric = false := by
    cases value <;> cases container <;> rfl
  obtain rfl | ⟨container, other_container⟩ := same.eq_or_containers
  · rfl
  · rw [not_numeric container, not_numeric other_container]

section Order

variable (first : Correspond base left right a other_a)
  (second : Correspond base left right b other_b)
include first second

theorem Correspond.less_eq : a.less b = other_a.less other_b := by
  obtain rfl | ⟨container, other_container⟩ := first.eq_or_containers
  · obtain rfl | ⟨container, other_container⟩ := second.eq_or_containers
    · rfl
    · rw [(Value.less_eq_false container _).2, (Value.less_eq_false other_container _).2]
  · rw [(Value.less_eq_false container _).1, (Value.less_eq_false other_container _).1]

theorem Correspond.lessEq_eq : a.lessEq b = other_a.lessEq other_b := by
  obtain rfl | ⟨container, other_container⟩ := first.eq_or_containers
  · obtain rfl | ⟨container, other_container⟩ := second.eq_or_containers
    · rfl
    · rw [(Value.lessEq_eq_false container _).2, (Value.lessEq_eq_false other_container _).2]
  · rw [(Value.lessEq_eq_false container _).1, (Value.lessEq_eq_false other_container _).1]

end Order

/-! ### Indexing and slicing -/

/-- If one computation gives a value in the left heap, another one gives a value that corresponds to
it in the right heap. -/
def Transfers (base left right : Heap) (act other_act : Mem Value) : Prop :=
  ∀ value left_later, act left = .ok value left_later →
    ∃ other right_later, other_act right = .ok other right_later ∧
      Correspond base left_later right_later value other

theorem Value.exists_toInt (numeric : key.isNumeric = true) : ∃ index, key.toInt = .ok index := by
  cases key with
  | bool | integer | number => exact ⟨_, rfl⟩
  | nil | str | list | object | function => cases numeric

namespace Mem

variable {container : Value} {heap later : Heap}

theorem index_list {index} (numeric : key.isNumeric = true) (index_eq : key.toInt = .ok index)
    (cell : Nat) (heap : Heap) :
    Mem.index (.list cell) key heap =
      .ok (((position? (heap.list cell).length index).bind
        ((heap.list cell)[·]?)).getD .nil) heap := by
  have length_eq : heap.listLength cell = (heap.list cell).length := by
    simp [listLength, Heap.list]
  simp only [Mem.index, Run.get_bind, numeric, if_pos, index_eq, Mem.ofExcept, pure_bind, length_eq]
  cases position? (heap.list cell).length index with
  | none => rfl
  | some position =>
    have item_eq : heap.item cell position = (heap.list cell)[position]?.getD .nil := by
      simp [item, Heap.list]
    simp only [Option.bind_some, item_eq]
    rfl

theorem index_list_of_not_numeric (other : key.isNumeric = false) (cell : Nat) (heap : Heap) :
    Mem.index (.list cell) key heap = .ok .nil heap := by
  simp only [Mem.index, Run.get_bind, other]
  rfl

theorem index_str {index} (numeric : key.isNumeric = true) (index_eq : key.toInt = .ok index)
    (text : String) (heap : Heap) :
    Mem.index (.str text) key heap =
      .ok (((position? text.toList.length index).bind (text.toList[·]?.map charValue)).getD .nil)
        heap := by
  simp only [Mem.index, Run.get_bind, numeric, if_pos, index_eq, Mem.ofExcept, pure_bind]
  cases position? text.toList.length index <;> rfl

theorem index_str_of_not_numeric (other : key.isNumeric = false) (text : String) (heap : Heap) :
    Mem.index (.str text) key heap = .ok .nil heap := by
  simp only [Mem.index, Run.get_bind, other]
  rfl

theorem index_heap (done : Mem.index container key heap = .ok value later) : later = heap := by
  cases numeric : key.isNumeric with
  | true =>
    obtain ⟨index, index_eq⟩ := exists_toInt numeric
    cases container with
    | list cell => rw [index_list numeric index_eq] at done; cases done; rfl
    | str text => rw [index_str numeric index_eq] at done; cases done; rfl
    | nil | bool | integer | number | object | function => cases done; rfl
  | false =>
    cases container with
    | list cell => rw [index_list_of_not_numeric numeric] at done; cases done; rfl
    | str text => rw [index_str_of_not_numeric numeric] at done; cases done; rfl
    | nil | bool | integer | number | object | function => cases done; rfl

theorem bound_ok {bound} (done : Mem.bound value heap = .ok bound later) :
    value.handle? = none ∧ later = heap ∧ ∀ other, Mem.bound value other = .ok bound other := by
  cases value with
  | list | object | str | function => cases done
  | nil | bool | integer | number => cases done; exact ⟨rfl, rfl, fun _ => rfl⟩

theorem slice_grows {first} (done : Mem.slice container first last heap = .ok value later) :
    heap.Grows later := by
  cases container with
  | list cell | str text =>
    obtain ⟨start, between, start_done, from_start⟩ := Run.bind_eq_ok.mp done
    obtain ⟨_, rfl, _⟩ := bound_ok start_done
    obtain ⟨stop, after, stop_done, made⟩ := Run.bind_eq_ok.mp from_start
    obtain ⟨_, rfl, _⟩ := bound_ok stop_done
    cases made
    first | exact .pushList _ _ | exact .refl _
  | nil | bool | integer | number | object | function =>
    cases done
    exact .refl heap

end Mem

theorem sliceItems_related {items others} (all : Forall₂ related items others)
    (first last : Option Int) :
    Forall₂ related (sliceItems items first last) (sliceItems others first last) := by
  simp only [sliceItems, all.length_eq]
  split_ifs
  all_goals first
    | exact .nil
    | exact forall₂_drop _ (forall₂_take _ all)

theorem getD_getElem?_related {related : Value → Value → Prop}
    (all : Forall₂ related items others) (nil_related : related .nil .nil)
    (position? : Option Nat) :
    related ((position?.bind (items[·]?)).getD .nil) ((position?.bind (others[·]?)).getD .nil) := by
  cases position? with
  | none => exact nil_related
  | some position =>
    induction all generalizing position with
    | nil => exact nil_related
    | cons head _ ih =>
      cases position with
      | zero => exact head
      | succ position => exact ih position

namespace Twins

variable (twins : Twins base left right) {other_key : Value}
include twins

theorem index (container : Correspond base left right a other_a)
    (keys : Correspond base left right key other_key) :
    Transfers base left right (Mem.index a key) (Mem.index other_a other_key) := by
  have transfers {value other : Value} (done : Mem.index a key left = .ok value left)
      (other_done : Mem.index other_a other_key right = .ok other right)
      (same : Correspond base left right value other) :
      Transfers base left right (Mem.index a key) (Mem.index other_a other_key) := by
    intro result later result_eq
    rw [done] at result_eq
    cases result_eq
    exact ⟨other, right, other_done, same⟩
  have nil_same : Correspond base left right .nil .nil := .old (in_of_scalar rfl)
  cases a with
  | list cell =>
    obtain ⟨other, rfl, items⟩ := twins.list container
    cases numeric : key.isNumeric with
    | true =>
      obtain ⟨index, index_eq⟩ := exists_toInt numeric
      obtain rfl := keys.eq_of_scalar (Value.toInt_ok index_eq)
      refine transfers (Mem.index_list numeric index_eq cell left)
        (Mem.index_list numeric index_eq other right) ?_
      rw [items.length_eq]
      exact getD_getElem?_related items nil_same _
    | false =>
      have other_not_numeric := keys.isNumeric_eq ▸ numeric
      exact transfers (Mem.index_list_of_not_numeric numeric cell left)
        (Mem.index_list_of_not_numeric other_not_numeric other right) nil_same
  | object cell =>
    obtain ⟨other, rfl, entries⟩ := twins.object container
    refine transfers rfl rfl ?_
    rw [twins.text_eq keys]
    exact getD_related entries nil_same _
  | str text =>
    obtain rfl := container.eq_of_scalar rfl
    cases numeric : key.isNumeric with
    | true =>
      obtain ⟨index, index_eq⟩ := exists_toInt numeric
      obtain rfl := keys.eq_of_scalar (Value.toInt_ok index_eq)
      refine transfers (Mem.index_str numeric index_eq text left)
        (Mem.index_str numeric index_eq text right) (.old (in_of_scalar ?_))
      cases position? text.toList.length index with
      | none => rfl
      | some position =>
        rw [Option.bind_some]
        cases text.toList[position]? <;> rfl
    | false =>
      have other_not_numeric := keys.isNumeric_eq ▸ numeric
      exact transfers (Mem.index_str_of_not_numeric numeric text left)
        (Mem.index_str_of_not_numeric other_not_numeric text right) nil_same
  | nil | bool | integer | number | function =>
    obtain rfl := container.eq_of_scalar rfl
    exact transfers rfl rfl nil_same

theorem newList (same : Forall₂ (Correspond base left right) items others) :
    Transfers base left right (Mem.newList items) (Mem.newList others) := by
  rintro value later done
  cases done
  exact ⟨_, _, rfl, .newList twins same⟩

theorem newObject {table other}
    (same : Forall₂ (SameEntry (Correspond base left right)) table.entries other.entries) :
    Transfers base left right (Mem.newObject table) (Mem.newObject other) := by
  rintro value later done
  cases done
  exact ⟨_, _, rfl, .newObject twins same⟩

theorem slice {first other_first other_last} (container : Correspond base left right a other_a)
    (firsts : Correspond base left right first other_first)
    (lasts : Correspond base left right last other_last) :
    Transfers base left right (Mem.slice a first last)
      (Mem.slice other_a other_first other_last) := by
  have bounds {act : Option Int → Option Int → Mem Value} {value : Value} {later : Heap}
      (done : (do act (← Mem.bound first) (← Mem.bound last)) left = .ok value later) :
      ∃ start stop, act start stop left = .ok value later ∧
        ∀ other_act : Option Int → Option Int → Mem Value,
        (do other_act (← Mem.bound other_first) (← Mem.bound other_last)) right =
          other_act start stop right := by
    obtain ⟨start, between, start_done, from_start⟩ := Run.bind_eq_ok.mp done
    obtain ⟨first_scalar, rfl, start_any⟩ := Mem.bound_ok start_done
    obtain ⟨stop, after, stop_done, from_stop⟩ := Run.bind_eq_ok.mp from_start
    obtain ⟨last_scalar, rfl, stop_any⟩ := Mem.bound_ok stop_done
    obtain rfl := firsts.eq_of_scalar first_scalar
    obtain rfl := lasts.eq_of_scalar last_scalar
    refine ⟨start, stop, from_stop, fun other_act => ?_⟩
    rw [Run.bind_ok (start_any right), Run.bind_ok (stop_any right)]
  cases a with
  | list cell =>
    obtain ⟨other, rfl, items⟩ := twins.list container
    intro value later done
    obtain ⟨start, stop, made, other_eq⟩ := bounds done
    obtain ⟨result, right_later, other_made, same⟩ :=
      twins.newList (sliceItems_related items start stop) value later made
    exact ⟨result, right_later, (other_eq _).trans other_made, same⟩
  | str text =>
    obtain rfl := container.eq_of_scalar rfl
    intro value later done
    obtain ⟨start, stop, ⟨⟩, other_eq⟩ := bounds done
    exact ⟨_, right, other_eq _, .old (in_of_scalar rfl)⟩
  | object cell =>
    obtain ⟨other, rfl, _⟩ := twins.object container
    intro value later done
    cases done
    exact ⟨_, right, rfl, .old (in_of_scalar rfl)⟩
  | nil | bool | integer | number | function =>
    obtain rfl := container.eq_of_scalar rfl
    intro value later done
    cases done
    exact ⟨_, right, rfl, .old (in_of_scalar rfl)⟩

end Twins

end Vimlet
