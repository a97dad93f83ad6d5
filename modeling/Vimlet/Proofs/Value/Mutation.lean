import Vimlet.Builtin.Container
import Vimlet.Proofs.Value.Acyclic
import Vimlet.Proofs.Value.Changes

/-!
# Changes of a container in place

In a List the elements of one stretch give way to others, and in an Object new entries are laid over
the old ones. The heap is written in one cell, after a new List was made if elements are removed.
-/

namespace Vimlet

variable {heap before after : Heap} {cell : Nat} {handle : Handle}

/-! ### Stretches of a list -/

/-- The elements from a position on give way to others; the elements around them stay. -/
def Spliced {α : Type} (start : Int) (removed added before after : List α) : Prop :=
  ∃ front back, (front.length : Int) = start ∧
    before = front ++ removed ++ back ∧ after = front ++ added ++ back

variable {α : Type}

theorem spliced_stretch (items added : List α) (first count : Nat)
    (within : first + count ≤ items.length) :
    Spliced first ((items.drop first).take count) added items
      (items.take first ++ added ++ items.drop (first + count)) := by
  refine ⟨items.take first, items.drop (first + count), ?_, ?_, rfl⟩
  · rw [List.length_take]
    omega
  · rw [List.append_assoc, ← List.drop_drop, List.take_append_drop, List.take_append_drop]

theorem spliced_insertion (items added : List α) {cut} (within : cut ≤ items.length) :
    Spliced cut [] added items (items.take cut ++ added ++ items.drop cut) :=
  spliced_stretch items added cut 0 within

theorem spliced_one (items added : List α) {position} (within : position < items.length) :
    Spliced position [items.get ⟨position, within⟩] added items
      (items.take position ++ added ++ items.drop (position + 1)) := by
  have stretch := spliced_stretch items added position 1 within
  rwa [List.drop_eq_getElem_cons within] at stretch

theorem Spliced.eq_append {added before after : List α}
    (spliced : Spliced before.length [] added before after) : after = before ++ added := by
  obtain ⟨front, back, length_front, rfl, rfl⟩ := spliced
  have none_left : back = [] := by
    rw [← List.length_eq_zero_iff]
    simp only [List.length_append, List.length_nil] at length_front
    omega
  simp [none_left]

/-- The position that an index stands for: a negative one is counted from the end. -/
def fromEnd (size : Nat) (index : Int) : Int := if index < 0 then size + index else index

theorem fromEnd_range {size : Nat} {index} (inside : -(size : Int) ≤ index ∧ index < size) :
    0 ≤ fromEnd size index ∧ fromEnd size index < size := by
  unfold fromEnd
  split <;> omega

theorem position?_eq (size : Nat) (index : Int) :
    position? size index =
      if -(size : Int) ≤ index ∧ index < size then some (fromEnd size index).toNat else none := by
  unfold position? fromEnd
  grind

theorem cutPosition_le (size : Nat) (index : Int) : cutPosition size index ≤ size := by
  unfold cutPosition
  split <;> omega

/-! ### The operations -/

/-- An operation that changes a container in place. -/
inductive Mutation where
  | insert (target item index : Value)
  | append (target item : Value)
  | extend (target other place : Value)
  | setItem (target key item : Value)
  | remove (target key last : Value)

namespace Mutation

def target : Mutation → Value
  | insert target _ _ | append target _ | extend target _ _ | setItem target _ _
  | remove target _ _ => target

def perform : Mutation → Mem Value
  | insert target item index => Mem.insert target item index
  | append target item => Mem.append target item
  | extend target other place => Mem.extend target other place
  | setItem target key item => do
    Mem.setItem target key item
    return .nil
  | remove target key last => Mem.removeItem target key last

/-- The value stands for an index of a list. -/
def IsIndex (size : Nat) (key : Value) : Prop :=
  ∃ index, key.toInt = .ok index ∧ -(size : Int) ≤ index ∧ index < size

/-- The position at which a List is extended; without a place it is the end. -/
def Cuts (size : Nat) (place : Value) (cut : Nat) : Prop :=
  place = .nil ∧ cut = size ∨
    place ≠ .nil ∧ ∃ index, place.toInt = .ok index ∧ cut = cutPosition size index

/-- No container is put directly into itself, and an index that reads or overwrites is in range. -/
def Accepted (heap : Heap) : Mutation → Prop
  | insert (.list cell) item index =>
    item ≠ .list cell ∧ ∃ place, index.toInt = .ok place ∧ minWord ≤ place ∧ place ≤ maxWord
  | append (.list cell) item => item ≠ .list cell
  | extend (.list cell) (.list source) place =>
    .list cell ∉ heap.list source ∧ ∃ cut, place.toInt = .ok cut
  | extend (.object cell) (.object source) _ => .object cell ∉ (heap.object source).values
  | setItem (.list cell) key item => item ≠ .list cell ∧ IsIndex (heap.list cell).length key
  | setItem (.object cell) _ item => item ≠ .object cell
  | remove (.list cell) key last =>
    IsIndex (heap.list cell).length key ∧ ∃ stop, last.toInt = .ok stop
  | remove (.object cell) key _ => heap.text key ∈ (heap.object cell).keys
  | _ => False

/-- What the operation does to its container, and what it returns. -/
def Effect (before after : Heap) (result : Value) : Mutation → Prop
  | insert (.list cell) item index =>
    result = .list cell ∧ ∃ place, index.toInt = .ok place ∧
      Spliced (cutPosition (before.list cell).length place) [] [item]
        (before.list cell) (after.list cell)
  | append (.list cell) item =>
    result = .list cell ∧ after.list cell = before.list cell ++ [item]
  | extend (.list cell) (.list source) place =>
    result = .list cell ∧ ∃ cut, Cuts (before.list cell).length place cut ∧
      Spliced cut [] (before.list source) (before.list cell) (after.list cell)
  | extend (.object cell) (.object source) place =>
    result = .object cell ∧ after.object cell =
      (before.object cell).overlay (before.text place == "keep") (before.object source)
  | setItem (.list cell) key item =>
    ∃ index old, key.toInt = .ok index ∧
      Spliced (fromEnd (before.list cell).length index) [old] [item]
        (before.list cell) (after.list cell)
  | setItem (.object cell) key item =>
    after.object cell = (before.object cell).overlay false ⟨[(before.text key, item)]⟩
  | remove (.list cell) key last =>
    ∃ index removed, key.toInt = .ok index ∧
      Spliced (fromEnd (before.list cell).length index) removed []
        (before.list cell) (after.list cell) ∧
      (last = .nil ∧ removed = [result] ∨
        last ≠ .nil ∧ result = .list before.lists.size ∧
          after.list before.lists.size = removed)
  | remove (.object cell) key _ =>
    ∃ position, Spliced position [(before.text key, result)] []
      (before.object cell).entries (after.object cell).entries
  | _ => False

end Mutation

/-- All containers are there still, and at most one of them has changed. -/
structure Heap.ChangesOnly (handle : Handle) (before after : Heap) : Prop where
  handles (other : Handle) : other.In before → other.In after
  lists (cell : Nat) : cell < before.lists.size → .list cell ≠ handle →
    after.lists[cell]? = before.lists[cell]?
  objects (cell : Nat) : cell < before.objects.size → .object cell ≠ handle →
    after.objects[cell]? = before.objects[cell]?

theorem Heap.Grows.changesOnly {middle} (grows : before.Grows middle)
    (touches : middle.Touches handle after) :
    before.ChangesOnly handle after where
  handles other valid := (touches.handles other).mpr (grows.handle_in other valid)
  lists cell valid different := (touches.lists cell different).trans (grows.lists cell valid)
  objects cell valid different := (touches.objects cell different).trans (grows.objects cell valid)

theorem Heap.Touches.changesOnly (touches : before.Touches handle after) :
    before.ChangesOnly handle after :=
  (Heap.Grows.refl before).changesOnly touches

/-- The operation stops with the heap as it was, or does what it has to do, to its container
alone. -/
inductive Mutation.Atomic (mutation : Mutation) (heap : Heap) : Prop
  | refused (stop : Stop) (ended : mutation.perform heap = .error stop heap)
      (not_accepted : ¬mutation.Accepted heap)
  | performed (handle : Handle) (is_target : mutation.target = handle.value) (result : Value)
      (after : Heap) (ended : mutation.perform heap = .ok result after)
      (accepted : mutation.Accepted heap) (others : heap.ChangesOnly handle after)
      (effect : mutation.Effect heap after result) (keyed : after.Keyed)

/-! ### Writing a List -/

/-- A List has certain elements afterwards, and no other container has changed. -/
structure Heap.SetsList (cell : Nat) (items : List Value) (before after : Heap) : Prop where
  others : before.ChangesOnly (.list cell) after
  elements : after.list cell = items
  keyed : before.Keyed → after.Keyed

namespace Heap.SetsList

theorem refl (heap : Heap) (cell : Nat) : heap.SetsList cell (heap.list cell) heap where
  others := ⟨fun _ valid => valid, fun _ _ _ => rfl, fun _ _ _ => rfl⟩
  elements := rfl
  keyed keyed := keyed

theorem modify (valid : cell < heap.lists.size) (change : ListCell → ListCell) :
    heap.SetsList cell (change (heap.listCell cell)).items.toList
      { heap with lists := heap.lists.modify cell change } where
  others := (Touches.modifyList heap cell change).changesOnly
  elements := heap.list_modifyList valid change
  keyed keyed := keyed

theorem growList (valid : cell < heap.lists.size) (items : List Value) :
    heap.SetsList cell items (heap.growList cell items) :=
  modify valid fun contents => ⟨items.toArray, contents.additions + 1⟩

theorem setList (valid : cell < heap.lists.size) (items : List Value) :
    heap.SetsList cell items (heap.setList cell items) :=
  modify valid fun contents => { contents with items := items.toArray }

theorem pushItem (valid : cell < heap.lists.size) (item : Value) :
    heap.SetsList cell (heap.list cell ++ [item]) (heap.pushItem cell item) := by
  have sets := modify valid fun old => ⟨old.items.push item, old.additions + 1⟩
  rwa [Array.toList_push] at sets

theorem setItem (valid : cell < heap.lists.size) (position : Nat) (item : Value) :
    heap.SetsList cell ((heap.list cell).set position item) (heap.setItem cell position item) := by
  have sets := modify valid fun old =>
    { old with items := old.items.setIfInBounds position item }
  rwa [Array.toList_setIfInBounds] at sets

/-- A new List is made before a List is written. -/
theorem newList_setList (valid : cell < heap.lists.size) (new items : List Value) {made}
    (made_eq : made = { heap with lists := heap.lists.push { items := new.toArray } })
    (after_eq : after = made.setList cell items) :
    heap.SetsList cell items after ∧ after.list heap.lists.size = new := by
  have touches : made.Touches (.list cell) after := after_eq ▸ .modifyList made cell _
  have grows : heap.Grows made := made_eq ▸ .pushList heap _
  have still_valid : cell < made.lists.size := by
    rw [made_eq, Array.size_push]
    omega
  have sets := setList still_valid items
  rw [← after_eq] at sets
  refine ⟨⟨grows.changesOnly touches, sets.elements, fun keyed => ?_⟩, ?_⟩
  · refine sets.keyed ?_
    rw [made_eq]
    exact keyed
  · have different : Handle.list heap.lists.size ≠ .list cell := by simp; omega
    have kept := touches.contents_eq different
    rw [made_eq, heap.contents_pushList] at kept
    exact kept

end Heap.SetsList

theorem Heap.Keyed.setObject (keyed : heap.Keyed) {entries} (distinct : entries.keys.Nodup) :
    (heap.setObject cell entries).Keyed := by
  intro other
  by_cases same : other = cell
  · subst same
    by_cases valid : other < heap.objects.size
    · rwa [heap.object_setObject valid]
    · have none_there : heap.objects.size ≤ other := Nat.le_of_not_lt valid
      simp [Heap.object, Heap.setObject, none_there, Table.keys]
  · have kept := (Touches.setObject heap cell entries).objects other
      fun same_handle => same (Handle.object.inj same_handle)
    rw [Heap.object, kept]
    exact keyed other

end Vimlet
