import Mathlib.Data.Int.Range
import Vimlet.Proofs.Value.Changes
import Vimlet.Proofs.Value.Transfer

/-!
# Slices

A slice of a List or of a string has the parts under all indices from its start to its stop, in
order. Both are included. Negative bounds count from the end, and a bound out of range is moved to
an end.
-/

namespace Vimlet

open List Mem

/-! ### Indices of a slice -/

/-- The first index of a slice of so many elements. -/
def sliceStart (size : Nat) : Option Int → Int
  | none => 0
  | some first => if 0 ≤ first then first else max (size + first) 0

/-- The last index of a slice of so many elements. -/
def sliceStop (size : Nat) : Option Int → Int
  | none => size - 1
  | some last => min (if 0 ≤ last then last else size + last) (size - 1)

/-- The indices of a slice in order. There are none if it would stop before its start. -/
def sliceIndices (size : Nat) (first last : Option Int) : List Int :=
  Int.range (sliceStart size first) (sliceStop size last + 1)

variable {α : Type} {items : List α} {first last : Option Int}

theorem sliceStart_nonneg (size : Nat) (first : Option Int) : 0 ≤ sliceStart size first := by
  cases first with
  | none => exact Int.le_refl 0
  | some first =>
    rw [sliceStart]
    split
    · assumption
    · exact Int.le_max_right _ _

theorem sliceStop_lt (size : Nat) (last : Option Int) : sliceStop size last < size := by
  cases last with
  | none => exact Int.sub_one_lt_of_le (Int.le_refl _)
  | some last => exact Int.lt_of_le_sub_one (Int.min_le_right _ _)

theorem sliceItems_eq_drop (items : List α) (first last : Option Int) :
    sliceItems items first last = (items.take (sliceStop items.length last + 1).toNat).drop
      (sliceStart items.length first).toNat := by
  have starts := sliceStart_nonneg items.length first
  have start_eq : (if first.getD 0 < 0 then max (items.length + first.getD 0) 0 else first.getD 0) =
      sliceStart items.length first := by
    cases first <;> simp only [sliceStart, Option.getD] <;> omega
  obtain ⟨stop, stop_eq⟩ : ∃ stop : Int, stop = if last.getD (items.length - 1) < 0 then
      last.getD (items.length - 1) + items.length else last.getD (items.length - 1) := ⟨_, rfl⟩
  have count_eq : min (stop + 1) items.length = sliceStop items.length last + 1 := by
    cases last <;> simp only [sliceStop, stop_eq, Option.getD] <;> omega
  rw [sliceItems, start_eq, ← stop_eq, count_eq]
  split
  · refine (drop_eq_nil_of_le ?_).symm
    rw [length_take]
    omega
  · obtain within | beyond := Int.le_total (sliceStart items.length first) items.length
    · rw [Int.min_eq_left within]
    · rw [drop_eq_nil_of_le, drop_eq_nil_of_le] <;> rw [length_take] <;> omega

/-- A slice has the elements under its indices. -/
theorem map_getElem?_sliceIndices (items : List α) (first last : Option Int) :
    (sliceIndices items.length first last).map (fun index => items[index.toNat]?) =
      (sliceItems items first last).map some := by
  have starts := sliceStart_nonneg items.length first
  have stops := sliceStop_lt items.length last
  rw [sliceItems_eq_drop, sliceIndices, Int.range, map_map]
  refine ext_getElem ?_ fun offset low high => ?_
  · simp only [length_map, length_range, length_drop, length_take]
    omega
  · have position_eq : (sliceStart items.length first + offset).toNat =
        (sliceStart items.length first).toNat + offset := by omega
    simp [position_eq]

theorem sliceItems_map {β : Type} (f : α → β) (items : List α) (first last : Option Int) :
    sliceItems (items.map f) first last = (sliceItems items first last).map f := by
  rw [sliceItems_eq_drop, sliceItems_eq_drop, length_map, ← map_take, ← map_drop]

/-! ### Slices of values -/

/-- A bound of a slice as a value: Nil if it is absent. -/
def boundValue : Option Int → Value
  | none => .nil
  | some bound => .integer bound

/-- A slice of a value with so many parts is one of the same kind, with the parts under the indices
of the slice. -/
def Heap.SlicesByIndex (heap : Heap) (base : Value) (size : Nat) (first last : Option Int) : Prop :=
  ∃ part later parts,
    slice base (boundValue first) (boundValue last) heap = .ok part later ∧
      part.kind = base.kind ∧ heap.Grows later ∧ elements part later = .ok parts later ∧
      (sliceIndices size first last).mapM (fun index => Mem.index base (.integer index)) heap =
        .ok parts heap

variable {heap : Heap} {base : Value} {parts : List Value}

theorem mapM_index_sliceIndices (first last : Option Int)
    (indexed : ∀ index : Int, Mem.index base (.integer index) heap =
      .ok (((position? parts.length index).bind (parts[·]?)).getD .nil) heap) :
    (sliceIndices parts.length first last).mapM (fun index => Mem.index base (.integer index))
      heap = .ok (sliceItems parts first last) heap := by
  have in_order (indices : List Int)
      (inside : ∀ index ∈ indices, 0 ≤ index ∧ index < parts.length) :
      indices.mapM (fun index => Mem.index base (.integer index)) heap =
        .ok (indices.map fun index => parts[index.toNat]?.getD .nil) heap := by
    induction indices with
    | nil => rfl
    | cons index indices ih =>
      obtain ⟨⟨low, high⟩, others⟩ := forall_mem_cons.mp inside
      have at_index : Mem.index base (.integer index) heap =
          .ok (parts[index.toNat]?.getD .nil) heap := by
        rw [indexed, position?, if_pos (by simp [low, high])]
        rfl
      rw [mapM_cons, Run.bind_ok at_index, Run.bind_ok (ih others)]
      rfl
  have inside : ∀ index ∈ sliceIndices parts.length first last,
      0 ≤ index ∧ index < parts.length := by
    intro index mem
    have starts := sliceStart_nonneg parts.length first
    have stops := sliceStop_lt parts.length last
    rw [sliceIndices, Int.mem_range_iff] at mem
    omega
  have found := congrArg (map (Option.getD · Value.nil))
    (map_getElem?_sliceIndices parts first last)
  rw [map_map, map_map] at found
  rw [in_order _ inside]
  exact congrArg (EStateM.Result.ok · heap) (found.trans (map_id _))

theorem slice_list (cell : Nat) (first last : Option Int) (heap : Heap) :
    slice (.list cell) (boundValue first) (boundValue last) heap =
      newList (sliceItems (heap.list cell) first last) heap := by
  cases first <;> cases last <;> rfl

theorem slicesByIndex_list (cell : Nat) (first last : Option Int) :
    heap.SlicesByIndex (.list cell) (heap.list cell).length first last := by
  refine ⟨_, _, _, slice_list cell first last heap, rfl, .pushList _ _, ?_,
    mapM_index_sliceIndices first last fun _ => index_list rfl rfl cell heap⟩
  exact congrArg (EStateM.Result.ok · _) (Heap.contents_pushList heap _)

theorem slice_str (text : String) (first last : Option Int) (heap : Heap) :
    slice (.str text) (boundValue first) (boundValue last) heap =
      .ok (.str (String.ofList (sliceItems text.toList first last))) heap := by
  cases first <;> cases last <;> rfl

theorem elements_ofList (chars : List Char) (heap : Heap) :
    elements (.str (String.ofList chars)) heap = .ok (chars.map charValue) heap := by
  change EStateM.Result.ok ((String.ofList chars).toList.map charValue) heap = _
  rw [String.toList_ofList]

theorem slicesByIndex_str (text : String) (first last : Option Int) :
    heap.SlicesByIndex (.str text) text.length first last := by
  have indexed (index : Int) : Mem.index (.str text) (.integer index) heap =
      .ok (((position? (text.toList.map charValue).length index).bind
        ((text.toList.map charValue)[·]?)).getD .nil) heap := by
    rw [index_str rfl rfl text heap]
    simp
  have found := mapM_index_sliceIndices first last indexed
  rw [length_map, String.length_toList, sliceItems_map] at found
  exact ⟨_, _, _, slice_str text first last heap, rfl, .refl _, elements_ofList _ _, found⟩

/-- The elements of a slice of a List or of a string are the parts under all indices from its start
to its stop, in order. -/
theorem slice_elements_are_indexed (heap : Heap) (first last : Option Int) :
    (∀ cell, heap.SlicesByIndex (.list cell) (heap.list cell).length first last) ∧
    (∀ text : String, heap.SlicesByIndex (.str text) text.length first last) ∧
    ∀ text : String, ∃ chars later,
      (do
        let part ← slice (.str text) (boundValue first) (boundValue last)
        elements part : Mem (List Value)) heap = .ok chars heap ∧
      (do
        let list ← newList (← elements (.str text))
        let part ← slice list (boundValue first) (boundValue last)
        elements part : Mem (List Value)) heap = .ok chars later := by
  refine ⟨fun cell => slicesByIndex_list cell first last,
    fun text => slicesByIndex_str text first last, fun text => ?_⟩
  let filled : Heap :=
    { heap with lists := heap.lists.push { items := (text.toList.map charValue).toArray } }
  obtain ⟨later, sliced⟩ : ∃ later, slice (.list heap.lists.size) (boundValue first)
      (boundValue last) filled = .ok (.list filled.lists.size) later ∧
        later.list filled.lists.size = (sliceItems text.toList first last).map charValue := by
    refine ⟨_, slice_list _ first last filled, (Heap.contents_pushList filled _).trans ?_⟩
    rw [← sliceItems_map]
    exact congrArg (sliceItems · first last) (Heap.contents_pushList heap _)
  refine ⟨_, later, (Run.bind_ok (slice_str text first last heap)).trans (elements_ofList _ heap),
    (Run.bind_ok sliced.1 : (_ >>= elements) filled = _).trans ?_⟩
  exact congrArg (EStateM.Result.ok · later) sliced.2

end Vimlet
