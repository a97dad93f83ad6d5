import Mathlib.Data.Finset.Card
import Mathlib.Data.Finset.Prod
import Vimlet.Value.Equality
import Vimlet.Value.Printer

/-!
# Walks over containers

Printing and comparing values remember the path on which they came. A path without repetition is no
longer than there are containers, or pairs of them, so the bounds on the length of paths are never
met.
-/

namespace Vimlet

variable {heap : Heap} {handle : Handle} {a b : Value} {answer equal : Bool}

section Paths

variable {α : Type} [DecidableEq α]

/-- How many members of a set a path has not visited. -/
def unvisited (all : Finset α) (path : List α) : Nat := (all \ path.toFinset).card

theorem unvisited_cons_lt {all : Finset α} {path place} (mem : place ∈ all) (fresh : place ∉ path) :
    unvisited all (place :: path) < unvisited all path := by
  refine Finset.card_lt_card (Finset.ssubset_iff_subset_ne.mpr ⟨?_, fun same => ?_⟩)
  · exact Finset.sdiff_subset_sdiff (Finset.Subset.refl all) (by simp)
  · have remains : place ∈ all \ path.toFinset := by simp [mem, fresh]
    rw [← same] at remains
    simp at remains

theorem unvisited_le (all : Finset α) (path : List α) : unvisited all path ≤ all.card :=
  Finset.card_le_card Finset.sdiff_subset

theorem unvisited_le_of_subset {path more} (all : Finset α) (subset : path ⊆ more) :
    unvisited all more ≤ unvisited all path := by
  have visited : path.toFinset ⊆ more.toFinset := fun place mem =>
    List.mem_toFinset.mpr (subset (List.mem_toFinset.mp mem))
  exact Finset.card_le_card (Finset.sdiff_subset_sdiff (Finset.Subset.refl all) visited)

end Paths

/-- The value that stands for a container. -/
def Handle.value : Handle → Value
  | .list cell => .list cell
  | .object cell => .object cell

theorem Handle.value_injective : Function.Injective Handle.value := by
  intro first second same
  cases first <;> cases second <;> cases same <;> rfl

theorem Handle.handle?_value (handle : Handle) : handle.value.handle? = some handle := by
  cases handle <;> rfl

theorem Value.eq_of_handle? {value} (handle_eq : value.handle? = some handle) :
    value = handle.value := by
  cases value <;> cases handle_eq <;> rfl

def Handle.In (heap : Heap) : Handle → Prop
  | .list cell => cell < heap.lists.size
  | .object cell => cell < heap.objects.size

namespace Heap

def handles (heap : Heap) : Finset Handle :=
  (Finset.range heap.lists.size).image .list ∪ (Finset.range heap.objects.size).image .object

theorem mem_handles : handle ∈ heap.handles ↔ handle.In heap := by
  cases handle <;> simp [handles, Handle.In]

theorem card_handles_le (heap : Heap) : heap.handles.card ≤ heap.size := by
  calc heap.handles.card
      ≤ ((Finset.range heap.lists.size).image Handle.list).card +
          ((Finset.range heap.objects.size).image Handle.object).card := Finset.card_union_le _ _
    _ ≤ (Finset.range heap.lists.size).card + (Finset.range heap.objects.size).card :=
        Nat.add_le_add Finset.card_image_le Finset.card_image_le
    _ = heap.size := by simp [size]

theorem contents_eq_nil (outside : ¬handle.In heap) : heap.contents handle = [] := by
  cases handle with
  | list cell =>
    have none_there : heap.lists[cell]? = none := by simpa [Handle.In] using outside
    simp [contents, list, listCell, none_there]
  | object cell =>
    have none_there : heap.objects[cell]? = none := by simpa [Handle.In] using outside
    simp [contents, object, none_there, Table.values]

theorem forall_contents {property : Handle → Value → Prop}
    (lists : ∀ cell < heap.lists.size, ∀ inner ∈ heap.list cell, property (.list cell) inner)
    (objects : ∀ cell < heap.objects.size, ∀ inner ∈ (heap.object cell).values,
      property (.object cell) inner) (handle : Handle) :
    ∀ inner ∈ heap.contents handle, property handle inner := by
  by_cases valid : handle.In heap
  · cases handle with
    | list cell => exact lists cell valid
    | object cell => exact objects cell valid
  · rw [contents_eq_nil valid]
    exact List.forall_mem_nil _

/-- A walk into a container leaves fewer containers to visit. -/
theorem unvisited_enter_lt {path held} (fresh : handle ∉ path) (mem : held ∈ heap.contents handle) :
    unvisited heap.handles (handle :: path) < unvisited heap.handles path := by
  have valid : handle.In heap := by
    by_contra outside
    rw [contents_eq_nil outside] at mem
    cases mem
  exact unvisited_cons_lt (mem_handles.mpr valid) fresh

end Heap

/-! ### Comparing -/

theorem allPairs_mono {related other : Value → Value → Option Bool}
    (agrees : ∀ a b answer, related a b = some answer → other a b = some answer) {pairs}
    (answered : allPairs related pairs = some answer) : allPairs other pairs = some answer := by
  induction pairs with
  | nil => exact answered
  | cons pair rest ih =>
    obtain ⟨a, b⟩ := pair
    rw [allPairs] at answered ⊢
    cases first : related a b with
    | none => simp [first] at answered
    | some equal =>
      rw [agrees a b equal first]
      rw [first] at answered
      cases equal with
      | true => exact ih answered
      | false => exact answered

namespace Heap

/-- Equality of values that nest at most `fuel` deep, whatever the path to them. -/
def equalWithin (heap : Heap) : Nat → Value → Value → Option Bool
  | 0, a, b =>
    match heap.compare a b with
    | .answer equal => some equal
    | .pairs _ _ => none
  | fuel + 1, a, b =>
    match heap.compare a b with
    | .answer equal => some equal
    | .pairs _ values => allPairs (equalWithin heap fuel) values

theorem equalWithin_answer (compared : heap.compare a b = .answer equal) (fuel : Nat) :
    heap.equalWithin fuel a b = some equal := by
  cases fuel <;> simp [equalWithin, compared]

theorem equalFrom_answer (compared : heap.compare a b = .answer equal) (fuel : Nat)
    (path : List (Handle × Handle)) : heap.equalFrom fuel path a b = some equal := by
  cases fuel <;> simp [equalFrom, compared]

section Pairs

variable {containers : Handle × Handle} {values : List (Value × Value)}
  (compared : heap.compare a b = .pairs containers values)
include compared

theorem equalWithin_zero : heap.equalWithin 0 a b = none := by simp [equalWithin, compared]

theorem equalWithin_succ (fuel : Nat) :
    heap.equalWithin (fuel + 1) a b = allPairs (heap.equalWithin fuel) values := by
  simp [equalWithin, compared]

theorem equalFrom_zero (path : List (Handle × Handle)) : heap.equalFrom 0 path a b = none := by
  simp [equalFrom, compared]

theorem equalFrom_succ (fuel : Nat) (path : List (Handle × Handle)) :
    heap.equalFrom (fuel + 1) path a b =
      if containers ∈ path then none
      else allPairs (heap.equalFrom fuel (containers :: path)) values := by
  simp [equalFrom, compared]

/-- Contents are compared only of two Lists of one length or of two Objects with the same keys. -/
theorem compare_pairs_cases :
    (∃ first second, a = .list first ∧ b = .list second ∧
        containers = (.list first, .list second) ∧
        (heap.list first).length = (heap.list second).length ∧
        values = (heap.list first).zip (heap.list second)) ∨
      ∃ first second, a = .object first ∧ b = .object second ∧
        containers = (.object first, .object second) ∧
        sameKeys (heap.object first) (heap.object second) = true ∧
        values = pairedValues (heap.object first) (heap.object second) := by
  unfold compare at compared
  split at compared
  · split at compared <;> cases compared
    rename_i first second same
    exact .inl ⟨first, second, rfl, rfl, rfl, by simpa using same, rfl⟩
  · split at compared <;> cases compared
    rename_i first second same
    exact .inr ⟨first, second, rfl, rfl, rfl, same, rfl⟩
  all_goals cases compared

theorem eq_value_of_compare : a = containers.1.value ∧ b = containers.2.value := by
  obtain ⟨_, _, rfl, rfl, rfl, _⟩ | ⟨_, _, rfl, rfl, rfl, _⟩ := compare_pairs_cases compared
  · exact ⟨rfl, rfl⟩
  · exact ⟨rfl, rfl⟩

theorem mem_handles_of_compare (values_ne : values ≠ []) :
    containers ∈ heap.handles ×ˢ heap.handles := by
  have nonempty : heap.contents containers.1 ≠ [] ∧ heap.contents containers.2 ≠ [] := by
    obtain ⟨first, second, _, _, rfl, same, rfl⟩ | ⟨first, second, _, _, rfl, same, rfl⟩ :=
      compare_pairs_cases compared
    · simpa [contents, List.zip_eq_nil_iff] using values_ne
    · have size_eq : (heap.object first).entries.length = (heap.object second).entries.length := by
        simp only [sameKeys, Bool.and_eq_true, beq_iff_eq] at same
        exact same.1
      have first_ne : (heap.object first).entries ≠ [] := by simpa [pairedValues] using values_ne
      have second_ne : (heap.object second).entries ≠ [] := by
        rw [← List.length_pos_iff] at first_ne ⊢
        omega
      simpa [contents, Table.values] using And.intro first_ne second_ne
  rw [Finset.mem_product, mem_handles, mem_handles]
  constructor
  · by_contra outside
    exact nonempty.1 (contents_eq_nil outside)
  · by_contra outside
    exact nonempty.2 (contents_eq_nil outside)

end Pairs

variable {fuel more : Nat} {path : List (Handle × Handle)}

theorem equalWithin_mono (le : fuel ≤ more) (answered : heap.equalWithin fuel a b = some answer) :
    heap.equalWithin more a b = some answer := by
  induction more generalizing fuel a b answer with
  | zero => rwa [Nat.le_zero.mp le] at answered
  | succ more ih =>
    cases compared : heap.compare a b with
    | answer equal => rw [← answered, equalWithin_answer compared, equalWithin_answer compared]
    | pairs containers values =>
      cases fuel with
      | zero =>
        rw [equalWithin_zero compared] at answered
        cases answered
      | succ fuel =>
        rw [equalWithin_succ compared] at answered ⊢
        exact allPairs_mono (fun a b answer => ih (Nat.le_of_succ_le_succ le)) answered

theorem equalWithin_eq_none (le : fuel ≤ more) (endless : heap.equalWithin more a b = none) :
    heap.equalWithin fuel a b = none := by
  cases ended : heap.equalWithin fuel a b with
  | none => rfl
  | some answer =>
    rw [equalWithin_mono le ended] at endless
    cases endless

theorem equalWithin_of_equalFrom (answered : heap.equalFrom fuel path a b = some answer) :
    heap.equalWithin fuel a b = some answer := by
  induction fuel generalizing path a b answer with
  | zero =>
    cases compared : heap.compare a b with
    | answer equal => rw [← answered, equalWithin_answer compared, equalFrom_answer compared]
    | pairs containers values =>
      rw [equalFrom_zero compared] at answered
      cases answered
  | succ fuel ih =>
    cases compared : heap.compare a b with
    | answer equal => rw [← answered, equalWithin_answer compared, equalFrom_answer compared]
    | pairs containers values =>
      rw [equalFrom_succ compared] at answered
      rw [equalWithin_succ compared]
      split at answered
      · cases answered
      · exact allPairs_mono (fun a b answer => ih) answered

/-- A comparison that ends needs only the answers of others that end in fewer steps, and so never
its own. -/
theorem equalFrom_of_equalWithin {steps} (le : steps ≤ fuel)
    (answered : heap.equalWithin steps a b = some answer)
    (waiting : ∀ containers ∈ path,
      heap.equalWithin steps containers.1.value containers.2.value = none) :
    heap.equalFrom fuel path a b = some answer := by
  induction steps using Nat.strong_induction_on generalizing fuel path a b answer with
  | _ steps ih =>
  by_cases earlier : ∃ fewer < steps, heap.equalWithin fewer a b ≠ none
  · obtain ⟨fewer, lt, ends⟩ := earlier
    obtain ⟨other, answered_early⟩ := Option.ne_none_iff_exists'.mp ends
    obtain rfl : other = answer := by
      rw [equalWithin_mono lt.le answered_early] at answered
      exact Option.some.inj answered
    refine ih fewer lt (by omega) answered_early fun containers mem => ?_
    exact equalWithin_eq_none lt.le (waiting containers mem)
  · cases compared : heap.compare a b with
    | answer equal =>
      rw [← answered, equalWithin_answer compared, equalFrom_answer compared]
    | pairs containers values =>
      obtain ⟨a_eq, b_eq⟩ := eq_value_of_compare compared
      have fresh : containers ∉ path := fun mem => by
        rw [a_eq, b_eq, waiting containers mem] at answered
        cases answered
      cases steps with
      | zero =>
        rw [equalWithin_zero compared] at answered
        cases answered
      | succ steps =>
        obtain ⟨fuel, rfl⟩ : ∃ less, fuel = less + 1 := ⟨fuel - 1, by omega⟩
        rw [equalWithin_succ compared] at answered
        rw [equalFrom_succ compared, if_neg fresh]
        refine allPairs_mono (fun first second other answered => ?_) answered
        refine ih steps (Nat.lt_succ_self steps) (by omega) answered fun waiting_for mem => ?_
        obtain rfl | mem := List.mem_cons.mp mem
        · rw [← a_eq, ← b_eq]
          by_contra ends
          exact earlier ⟨steps, Nat.lt_succ_self steps, ends⟩
        · exact equalWithin_eq_none (Nat.le_succ steps) (waiting waiting_for mem)

/-- More steps than there are pairs of containers give no other answer. -/
theorem equalFrom_add_one (enough : unvisited (heap.handles ×ˢ heap.handles) path < fuel)
    (a b : Value) : heap.equalFrom (fuel + 1) path a b = heap.equalFrom fuel path a b := by
  induction fuel generalizing path a b with
  | zero => exact absurd enough (Nat.not_lt_zero _)
  | succ fuel ih =>
    cases compared : heap.compare a b with
    | answer equal => rw [equalFrom_answer compared, equalFrom_answer compared]
    | pairs containers values =>
      rw [equalFrom_succ compared, equalFrom_succ compared]
      split
      · rfl
      · rename_i fresh
        cases values with
        | nil => rfl
        | cons pair rest =>
          have mem := mem_handles_of_compare compared (List.cons_ne_nil pair rest)
          have fewer := unvisited_cons_lt mem fresh
          have same : heap.equalFrom (fuel + 1) (containers :: path) =
              heap.equalFrom fuel (containers :: path) := by
            funext a b
            exact ih (by omega) a b
          rw [same]

/-- Values have an answer to whether they are equal exactly if some number of steps gives one. -/
theorem equal?_eq_some_iff :
    heap.equal? a b = some answer ↔ ∃ steps, heap.equalWithin steps a b = some answer := by
  constructor
  · exact fun answered => ⟨_, equalWithin_of_equalFrom answered⟩
  · rintro ⟨steps, answered⟩
    have bound : unvisited (heap.handles ×ˢ heap.handles) [] < heap.size * heap.size + 1 := by
      calc unvisited (heap.handles ×ˢ heap.handles) []
          ≤ (heap.handles ×ˢ heap.handles).card := unvisited_le _ _
        _ = heap.handles.card * heap.handles.card := Finset.card_product _ _
        _ ≤ heap.size * heap.size := Nat.mul_le_mul heap.card_handles_le heap.card_handles_le
        _ < heap.size * heap.size + 1 := Nat.lt_succ_self _
    have stable (extra : Nat) :
        heap.equalFrom (heap.size * heap.size + 1 + extra) [] a b = heap.equal? a b := by
      induction extra with
      | zero => rfl
      | succ extra ih => rw [← ih, ← Nat.add_assoc, equalFrom_add_one (by omega)]
    rw [← stable steps]
    exact equalFrom_of_equalWithin (by omega) answered (by simp)

end Heap

theorem Mem.equal_eq_ok {later} :
    Mem.equal a b heap = .ok answer later ↔ heap.equal? a b = some answer ∧ later = heap := by
  have get_bind {next : Heap → Mem Bool} : (get >>= next) heap = next heap heap := rfl
  rw [Mem.equal, get_bind]
  cases heap.equal? a b with
  | none =>
    constructor
    · intro done
      cases done
    · rintro ⟨same, -⟩
      cases same
  | some found =>
    constructor
    · intro done
      cases done
      exact ⟨rfl, rfl⟩
    · rintro ⟨same, rfl⟩
      cases same
      rfl

end Vimlet
