import Mathlib.Data.List.Perm.Basic
import Mathlib.Data.Set.List
import Mathlib.Data.String.Basic
import Vimlet.Proofs.Interpreter.Layer
import Vimlet.Proofs.Number.Order
import Vimlet.Proofs.Sorting.Arrangement
import Vimlet.Recorder

/-!
# Sorting values

Without a comparator a List is sorted by keys, if NaN is not in it: first Integers and Numbers by
their size as doubles, then strings by their characters, then all other values, which have the same
key.
-/

namespace Vimlet

open Sorting Double List

/-! ### Keys -/

namespace Value

/-- The size of an Integer or a Number. -/
def size? : Value → Option Float
  | integer n => some (floatOfInt n)
  | number x => some x
  | _ => none

def text? : Value → Option String
  | str text => some text
  | _ => none

/-- A value that is neither a number nor a string. -/
def isOther : Value → Bool
  | nil | bool _ | list _ | object _ | function _ => true
  | _ => false

/-- The Number that is not equal to itself. -/
def isNaN : Value → Bool
  | number x => x.isNaN
  | _ => false

/-- What a sort without a comparator compares. -/
def sortKey (value : Value) : ℕ ×ₗ (ℤ ×ₗ ℤ ×ₗ ℤ) ×ₗ String :=
  toLex (value.sortRank, toLex (value.size?.elim 0 floatPlace, value.text?.getD ""))

variable {a b value : Value}

theorem isNaN_of_size? {x} (number : value.isNaN = false) (size : value.size? = some x) :
    x.isNaN = false := by
  cases value with
  | integer n =>
    cases size
    exact isNaN_floatOfInt n
  | number y =>
    cases size
    exact number
  | _ => cases size

theorem sortsBefore_eq (a_number : a.isNaN = false) (b_number : b.isNaN = false) :
    a.sortsBefore b = decide (a.sortKey < b.sortKey) := by
  have sizes {x y : Float} (a_size : a.size? = some x) (b_size : b.size? = some y) :
      x < y ↔ floatPlace x < floatPlace y :=
    lt_iff_floatPlace (isNaN_of_size? a_number a_size) (isNaN_of_size? b_number b_size)
  cases a <;> cases b <;>
    simp_all [sortsBefore, sortRank, sortKey, size?, text?, toNumber, less, Prod.Lex.toLex_lt_toLex,
      -String.lt_iff_ltb]

/-- Two values of a size have the same key just if the sizes are equal. -/
theorem beq_iff_sortKey {x} (number : value.isNaN = false) (x_number : x.isNaN = false) :
    value.size?.any (· == x) = true ↔ value.sortKey = toLex (0, toLex (floatPlace x, "")) := by
  have sizes {y : Float} (size : value.size? = some y) := beq_iff_floatPlace
    (isNaN_of_size? number size) x_number
  cases value <;> simp_all [sortRank, sortKey, size?, text?]

theorem isOther_iff_sortKey : value.isOther = true ↔ value.sortKey = toLex (2, toLex (0, "")) := by
  cases value <;> simp [isOther, sortRank, sortKey, size?, text?]

theorem size_le_of_sortKey {x y} (le : a.sortKey ≤ b.sortKey) (a_number : a.isNaN = false)
    (b_number : b.isNaN = false) (a_size : a.size? = some x) (b_size : b.size? = some y) :
    x ≤ y := by
  rw [le_iff_floatPlace (isNaN_of_size? a_number a_size) (isNaN_of_size? b_number b_size),
    le_iff_lt_or_eq]
  cases a <;> cases b <;>
    simp_all [sortRank, sortKey, size?, text?, Prod.Lex.toLex_le_toLex]

theorem text_le_of_sortKey {s t} (le : a.sortKey ≤ b.sortKey) (a_text : a.text? = some s)
    (b_text : b.text? = some t) : s ≤ t := by
  cases a <;> cases b <;>
    simp_all [sortRank, sortKey, size?, text?, Prod.Lex.toLex_le_toLex]

theorem sortRank_cases (value : Value) :
    (value.sortRank = 0 ∧ value.size?.isSome = true ∧ value.text? = none ∧ value.isOther = false) ∨
      (∃ text, value = str text) ∨
      (value.sortRank = 2 ∧ value.size? = none ∧ value.text? = none ∧ value.isOther = true) := by
  cases value <;> simp [sortRank, size?, text?, isOther]

end Value

/-! ### Sorting a List -/

variable {σ : Type}

/-- A computation only gives a value, and the value has a property. -/
def Gives {m : Type → Type} [Monad m] {β : Type} (act : m β) (post : β → Prop) : Prop :=
  ∃ value, act = pure value ∧ post value

section Gives

variable {m : Type → Type} [Monad m] [LawfulMonad m] {β : Type} {post : β → Prop}

theorem Gives.bind {γ : Type} {act} {middle : γ → Prop} {next : γ → m β} (first : Gives act middle)
    (second : ∀ value, middle value → Gives (next value) post) : Gives (act >>= next) post := by
  obtain ⟨value, rfl, has⟩ := first
  exact (pure_bind value next).symm ▸ second value has

theorem Gives.adapt {ε ε' : Type} {act : ExceptT ε m β} (change : ε → ε')
    (gives : Gives act post) : Gives (act.adapt change) post := by
  obtain ⟨value, rfl, has⟩ := gives
  exact ⟨value, ExceptT.ext (map_pure _ _), has⟩

theorem gives_judgement {ε α : Type} :
    Judgement (fun _ post (act _ : ExceptT ε m _) => Gives act post)
      fun _ (_ : List α) post (act _ : ExceptT (Stopped ε α) m _) => Gives act post where
  search_pure has := ⟨_, rfl, has⟩
  search_bind := .bind
  sorting_pure has := ⟨_, rfl, has⟩
  sorting_bind := .bind
  among _ _ := .adapt _
  within _ := .adapt _

end Gives

theorem sortElements_gives (engine : Engine σ) (cell : Nat) {elements}
    (numbers : ∀ item ∈ elements, item.isNaN = false) :
    Gives (sortElements (sortOrder engine .nil) cell elements)
      (Sorts Value.sortKey True elements) := by
  let less (a b : Value) : ExceptT Stop (Run σ) Bool :=
    ExceptT.mk (Run.attempt (sortOrder engine .nil a b))
  have asked : ∀ a ∈ elements, ∀ b ∈ elements,
      Gives (less a b) (Tells True (decide (a.sortKey < b.sortKey))) := by
    intro a a_mem b b_mem
    rw [← Value.sortsBefore_eq (numbers a a_mem) (numbers b b_mem)]
    exact ⟨_, rfl, fun _ => rfl⟩
  obtain ⟨sorted, sort_eq, sorts⟩ :=
    @Judgement.sort _ _ _ _ _ _ True elements Value.sortKey less less _ _ gives_judgement asked
  refine ⟨sorted, ?_, sorts⟩
  rw [sortElements, sort_eq]
  rfl

/-- Sorting a List in which NaN is not puts its elements in the order of their keys. -/
theorem apply_sort (engine : Engine σ) {cell session}
    (numbers : ∀ item ∈ session.heap.list cell, item.isNaN = false) :
    ∃ sorted, ControlFunction.apply engine .sort [.list cell] session =
        .ok (.list cell) { session with heap := session.heap.setList cell sorted } ∧
      (session.heap.setList cell sorted).list cell = sorted ∧
      Sorts Value.sortKey True (session.heap.list cell) sorted := by
  obtain ⟨sorted, elements_eq, sorts⟩ := sortElements_gives engine cell numbers
  have holds : (session.heap.setList cell sorted).list cell = sorted := by
    have perm := sorts.perm
    simp only [Heap.list, Heap.listCell, Heap.setList, Array.getElem?_modify, if_true] at perm ⊢
    cases cell_eq : session.heap.lists[cell]? with
    | none =>
      rw [cell_eq] at perm
      exact perm.symm.eq_nil.symm
    | some contents => rfl
  refine ⟨sorted, ?_, holds, sorts⟩
  have additions : ((session.heap.setList cell []).listCell cell).additions =
      (session.heap.listCell cell).additions := by
    simp only [Heap.listCell, Heap.setList, Array.getElem?_modify, if_true]
    cases session.heap.lists[cell]? <;> rfl
  have touched : (((session.heap.setList cell []).listCell cell).additions !=
      (session.heap.listCell cell).additions) = false := by
    rw [additions]
    exact bne_self_eq_false _
  change (do
    let sorted ← sortElements (sortOrder engine .nil) cell (session.heap.list cell)
    let touched := ((← get).heap.listCell cell).additions != (session.heap.listCell cell).additions
    Run.onHeap (Mem.setList cell sorted)
    if touched then throw .internal else return .list cell : Run σ Value)
      { session with heap := session.heap.setList cell [] } = _
  rw [elements_eq, pure_bind]
  change (if (((session.heap.setList cell []).listCell cell).additions !=
      (session.heap.listCell cell).additions) = true then throw .internal
    else return .list cell : Run σ Value)
      { session with heap := (session.heap.setList cell []).setList cell sorted } = _
  rw [touched, session.heap.setList_again cell [] fun _ => sorted]
  rfl

/-- Elements in the order of their ranks are numbers, then strings, then other values. -/
theorem groups_eq {items : List Value}
    (ordered : items.Pairwise fun a b => a.sortRank ≤ b.sortRank) :
    items.filter (·.size?.isSome) ++ (items.filterMap Value.text?).map .str ++
      items.filter Value.isOther = items := by
  induction items with
  | nil => rfl
  | cons item items ih =>
    obtain ⟨first, rest⟩ := pairwise_cons.mp ordered
    have no_numbers (rank : 0 < item.sortRank) : ∀ value ∈ items, ¬value.size?.isSome = true := by
      intro value mem
      have := first value mem
      obtain number | ⟨text, rfl⟩ | other := value.sortRank_cases
      · omega
      · simp [Value.size?]
      · simp [other.2.1]
    have no_texts (rank : 1 < item.sortRank) : ∀ value ∈ items, value.text? = none := by
      intro value mem
      have later := first value mem
      obtain number | ⟨text, rfl⟩ | other := value.sortRank_cases
      · exact number.2.2.1
      · exact absurd (Nat.lt_of_lt_of_le rank later) (Nat.lt_irrefl 1)
      · exact other.2.2.1
    have kept := ih rest
    obtain ⟨rank, size, text, other⟩ | ⟨text, rfl⟩ | ⟨rank, size, text, other⟩ :=
      item.sortRank_cases
    · simpa [size, text, other] using kept
    · rw [filter_eq_nil_iff.mpr (no_numbers Nat.one_pos)] at kept
      have none : (Value.str text :: items).filter (·.size?.isSome) = [] :=
        filter_eq_nil_iff.mpr
          (forall_mem_cons.mpr ⟨Bool.false_ne_true, no_numbers Nat.one_pos⟩)
      rw [none]
      exact congrArg (Value.str text :: ·) kept
    · rw [filter_eq_nil_iff.mpr (no_numbers (by omega)),
        filterMap_eq_nil_iff.mpr (no_texts (by omega))] at kept
      rw [filter_eq_nil_iff.mpr
          (forall_mem_cons.mpr ⟨by simp [size], no_numbers (by omega)⟩),
        filterMap_eq_nil_iff.mpr
          (forall_mem_cons.mpr ⟨text, no_texts (by omega)⟩), filter_cons_of_pos other]
      exact congrArg (item :: ·) kept

theorem filter_size_eq {elements sorted} (sorts : Sorts Value.sortKey True elements sorted)
    (numbers : ∀ item ∈ elements, item.isNaN = false) (x : Float) :
    sorted.filter (·.size?.any (· == x)) = elements.filter (·.size?.any (· == x)) := by
  cases x_number : x.isNaN with
  | true =>
    have none : (fun value : Value => value.size?.any (· == x)) = fun _ => false := by
      funext value
      simp [beq_of_isNaN x_number]
    rw [none, filter_false, filter_false]
  | false =>
    have same {items : List Value} (items_numbers : ∀ item ∈ items, item.isNaN = false) :
        items.filter (fun value => value.size?.any (· == x)) =
          items.filter fun value => value.sortKey = toLex (0, toLex (floatPlace x, "")) :=
      filter_congr fun value mem => by
        rw [Bool.eq_iff_iff, decide_eq_true_iff]
        exact Value.beq_iff_sortKey (items_numbers value mem) x_number
    rw [same numbers, same fun item mem => numbers item (sorts.perm.mem_iff.mpr mem)]
    exact (sorts.steady trivial _).symm

/-- Elements in groups: numbers by size, strings by characters, and others; ties and others in their
old order. -/
structure Grouped (elements numbers : List Value) (texts : List String) (others : List Value) :
    Prop where
  perm : (numbers ++ texts.map Value.str ++ others).Perm elements
  sized : ∀ value ∈ numbers, value.size?.isSome
  rising : numbers.Pairwise fun a b => ∀ x ∈ a.size?, ∀ y ∈ b.size?, x ≤ y
  steady : ∀ x, numbers.filter (·.size?.any (· == x)) = elements.filter (·.size?.any (· == x))
  alphabetical : texts.Pairwise (· ≤ ·)
  others_eq : others = elements.filter Value.isOther

/-- Sorting a List without NaN and without a comparator puts numbers first, by size, then strings,
by characters, and then all other values. -/
theorem sort_groups (engine : Engine σ) {cell : Nat} {session : Session σ}
    (no_nan : ∀ item ∈ session.heap.list cell, item.isNaN = false) :
    ∃ numbers texts others final,
      ControlFunction.apply engine .sort [.list cell] session = .ok (.list cell) final ∧
      final = { session with
        heap := session.heap.setList cell (numbers ++ texts.map .str ++ others) } ∧
      final.heap.list cell = numbers ++ texts.map .str ++ others ∧
      Grouped (session.heap.list cell) numbers texts others := by
  obtain ⟨sorted, run, holds, sorts⟩ := apply_sort engine no_nan
  have ordered := sorts.ordered trivial
  have sorted_eq := groups_eq (ordered.imp fun le => Prod.Lex.monotone_fst _ _ le)
  have number : ∀ item ∈ sorted, item.isNaN = false := fun item mem =>
    no_nan item (sorts.perm.mem_iff.mpr mem)
  refine ⟨sorted.filter (·.size?.isSome), sorted.filterMap Value.text?,
    sorted.filter Value.isOther, _, run, ?_, ?_, ?_⟩
  · rw [sorted_eq]
  · rw [sorted_eq]
    exact holds
  refine ⟨?_, fun _ mem => (mem_filter.mp mem).2, ?_, fun x => ?_, ?_, ?_⟩
  · rw [sorted_eq]
    exact sorts.perm.symm
  · refine pairwise_filter.mpr (ordered.imp_of_mem ?_)
    intro a b a_mem b_mem le _ _ x a_size y b_size
    exact Value.size_le_of_sortKey le (number a a_mem) (number b b_mem) a_size b_size
  · have sized : (fun value : Value => value.size?.any (· == x) && value.size?.isSome) =
        fun value => value.size?.any (· == x) := by
      funext value
      cases value.size? <;> simp
    rw [filter_filter, sized]
    exact filter_size_eq sorts no_nan x
  · refine pairwise_filterMap.mpr (ordered.imp ?_)
    intro a b le s a_text t b_text
    exact Value.text_le_of_sortKey le a_text b_text
  · have same (value : Value) :
        value.isOther = decide (value.sortKey = toLex (2, toLex (0, ""))) := by
      rw [Bool.eq_iff_iff, decide_eq_true_iff]
      exact Value.isOther_iff_sortKey
    rw [funext same]
    exact (sorts.steady trivial _).symm

/-- Two Numbers of one size, strings, and other values between them. -/
def mixed : Session Recorder :=
  { host := {}
    heap := { lists := #[⟨#[.bool true, .str "b", .integer 2, .number 2.0, .str "a", .number 1.5,
      .nil], 0⟩] } }

theorem sort_groups_mixed :
    (∀ item ∈ mixed.heap.list 0, item.isNaN = false) ∧
      ∃ numbers texts others final,
        ControlFunction.apply (Engine.ofDepth Recorder.host 0) .sort [.list 0] mixed =
          .ok (.list 0) final ∧
        final = { mixed with
          heap := mixed.heap.setList 0 (numbers ++ texts.map .str ++ others) } ∧
        final.heap.list 0 = numbers ++ texts.map .str ++ others ∧
        Grouped (mixed.heap.list 0) numbers texts others := by
  have no_nan : ∀ item ∈ mixed.heap.list 0, item.isNaN = false := by decide
  exact ⟨no_nan, sort_groups _ no_nan⟩

/-! ### Integers -/

/-- Sorting a List of Integers puts them in the order of the doubles that they are rounded to. -/
theorem sort_integers (engine : Engine σ) {cell : Nat} {session : Session σ} {integers : List ℤ}
    (elements : session.heap.list cell = integers.map .integer) :
    ∃ sorted : List ℤ, ∃ final,
      ControlFunction.apply engine .sort [.list cell] session = .ok (.list cell) final ∧
      final = { session with heap := session.heap.setList cell (sorted.map .integer) } ∧
      final.heap.list cell = sorted.map .integer ∧ sorted.Perm integers ∧
      sorted.Pairwise (fun a b => a ≤ b ∨ floatOfInt a == floatOfInt b) ∧
      (∀ x, sorted.filter (floatOfInt · == x) = integers.filter (floatOfInt · == x)) ∧
      ((∀ n ∈ integers, n.natAbs ≤ 2 ^ 53) → sorted.Pairwise (· ≤ ·)) := by
  have no_nan : ∀ item ∈ session.heap.list cell, item.isNaN = false := by
    rw [elements]
    simp [Value.isNaN]
  obtain ⟨values, run, holds, sorts⟩ := apply_sort engine no_nan
  obtain ⟨sorted, rfl⟩ : ∃ sorted : List ℤ, sorted.map .integer = values := by
    change values ∈ Set.range (map Value.integer)
    rw [Set.range_list_map]
    intro value mem
    have old := sorts.perm.mem_iff.mpr mem
    rw [elements] at old
    obtain ⟨n, _, same⟩ := mem_map.mp old
    exact ⟨n, same⟩
  have injective : Function.Injective Value.integer := fun _ _ same => Value.integer.inj same
  have perm : sorted.Perm integers := by
    have perm := sorts.perm.symm
    rw [elements] at perm
    exact (map_perm_map_iff injective).mp perm
  have rising : sorted.Pairwise fun a b => floatOfInt a ≤ floatOfInt b :=
    (pairwise_map.mp (sorts.ordered trivial)).imp fun le =>
      Value.size_le_of_sortKey le rfl rfl rfl rfl
  have equal_of_gt {a b : ℤ} (le : floatOfInt a ≤ floatOfInt b) (greater : b < a) :
      floatPlace (floatOfInt a) = floatPlace (floatOfInt b) :=
    ((le_iff_floatPlace (isNaN_floatOfInt a) (isNaN_floatOfInt b)).mp le).antisymm
      (floatOfInt_mono greater.le)
  refine ⟨sorted, _, run, rfl, holds, perm, rising.imp fun le => ?_, fun x => ?_, fun small => ?_⟩
  · refine or_iff_not_imp_left.mpr fun greater => ?_
    exact (beq_iff_floatPlace (isNaN_floatOfInt _) (isNaN_floatOfInt _)).mpr
      (equal_of_gt le (not_le.mp greater))
  · have old := filter_size_eq sorts no_nan x
    rw [elements, filter_map, filter_map] at old
    exact map_injective_iff.mpr injective old
  · refine rising.imp_of_mem fun a_mem b_mem le => not_lt.mp fun greater => ?_
    exact (floatOfInt_lt greater (small _ (perm.mem_iff.mp b_mem))
      (small _ (perm.mem_iff.mp a_mem))).ne (equal_of_gt le greater).symm

def holding (integers : List ℤ) : Session Recorder :=
  { host := {}, heap := { lists := #[⟨(integers.map .integer).toArray, 0⟩] } }

theorem sort_integers_small :
    (holding [3, -1, 2, -1]).heap.list 0 = [3, -1, 2, -1].map .integer ∧
      ∃ sorted : List ℤ, ∃ final,
        ControlFunction.apply (Engine.ofDepth Recorder.host 0) .sort [.list 0]
          (holding [3, -1, 2, -1]) = .ok (.list 0) final ∧
        final.heap.list 0 = sorted.map .integer ∧ sorted.Perm [3, -1, 2, -1] ∧
        sorted.Pairwise (· ≤ ·) := by
  have elements : (holding [3, -1, 2, -1]).heap.list 0 = [3, -1, 2, -1].map .integer := rfl
  obtain ⟨sorted, final, run, _, holds, perm, _, _, precise⟩ :=
    sort_integers (Engine.ofDepth Recorder.host 0) elements
  exact ⟨elements, sorted, final, run, holds, perm, precise (by decide)⟩

/-- Both are rounded to the lesser one, so they stay as they are. -/
theorem sort_integers_rounded :
    ∃ final,
      ControlFunction.apply (Engine.ofDepth Recorder.host 0) .sort [.list 0]
        (holding [2 ^ 53 + 1, 2 ^ 53]) = .ok (.list 0) final ∧
      final.heap.list 0 = [2 ^ 53 + 1, 2 ^ 53].map .integer ∧
      ¬([2 ^ 53 + 1, 2 ^ 53] : List ℤ).Pairwise (· ≤ ·) :=
  ⟨_, rfl, rfl, by decide⟩

end Vimlet
