import Vimlet.Proofs.Value.Correspondence

/-!
# Changes of the heap

The operations of the heap change the cell of one container, or add the cell of a new one. All other
cells stay as they are.
-/

namespace Vimlet

/-- At most the contents of one container change. -/
structure Heap.Writes (handle : Handle) (before after : Heap) : Prop where
  handles (other : Handle) : other.In after ↔ other.In before
  others (other : Handle) : other ≠ handle → after.contents other = before.contents other

/-- One container is new, and no other one changes. -/
structure Heap.Makes (handle : Handle) (before after : Heap) : Prop where
  new : ¬handle.In before
  handles (other : Handle) : other.In after ↔ other.In before ∨ other = handle
  others (other : Handle) : other ≠ handle → after.contents other = before.contents other

/-- At most the cell of one container changes. -/
structure Heap.Touches (handle : Handle) (before after : Heap) : Prop where
  handles (other : Handle) : other.In after ↔ other.In before
  lists (cell : Nat) : .list cell ≠ handle → after.lists[cell]? = before.lists[cell]?
  objects (cell : Nat) : .object cell ≠ handle → after.objects[cell]? = before.objects[cell]?

namespace Heap.Touches

theorem modifyList (heap : Heap) (cell : Nat) (change : ListCell → ListCell) :
    heap.Touches (.list cell) { heap with lists := heap.lists.modify cell change } where
  handles other := by cases other <;> simp [Handle.In]
  lists other different := by
    have away : cell ≠ other := fun same => different (congrArg Handle.list same.symm)
    simp [Array.getElem?_modify, away]
  objects _ _ := rfl

theorem setObject (heap : Heap) (cell : Nat) (entries : Table String Value) :
    heap.Touches (.object cell) (heap.setObject cell entries) where
  handles other := by cases other <;> simp [Handle.In, Heap.setObject]
  lists _ _ := rfl
  objects other different := by
    have away : cell ≠ other := fun same => different (congrArg Handle.object same.symm)
    simp [Heap.setObject, away]

variable {base before after : Heap} {handle : Handle} (touches : before.Touches handle after)
include touches

theorem grows (grows : base.Grows before) (new : ¬handle.In base) : base.Grows after where
  lists cell valid := by
    rw [touches.lists cell fun same => new (same ▸ valid), grows.lists cell valid]
  objects cell valid := by
    rw [touches.objects cell fun same => new (same ▸ valid), grows.objects cell valid]

theorem contents_eq {other} (different : other ≠ handle) :
    after.contents other = before.contents other := by
  cases other with
  | list cell => simp only [contents, list, listCell, touches.lists cell different]
  | object cell => simp only [contents, object, touches.objects cell different]

theorem keys_eq {other} (different : other ≠ handle) : after.keys other = before.keys other := by
  cases other with
  | list cell => rfl
  | object cell => simp only [keys, object, touches.objects cell different]

theorem writes : before.Writes handle after where
  handles := touches.handles
  others _ different := touches.contents_eq different

end Heap.Touches

namespace Heap

variable (heap : Heap)

theorem Writes.modifyList (cell : Nat) (change : ListCell → ListCell) :
    heap.Writes (.list cell) { heap with lists := heap.lists.modify cell change } :=
  (Touches.modifyList heap cell change).writes

variable {cell : Nat}

theorem mem_modifyList {change : ListCell → ListCell} {value}
    (mem : value ∈ Heap.contents { heap with lists := heap.lists.modify cell change }
      (.list cell)) : value ∈ (change (heap.listCell cell)).items.toList := by
  simp only [contents, list, listCell, Array.getElem?_modify, if_true] at mem ⊢
  cases found : heap.lists[cell]? with
  | none => simp [found] at mem
  | some contents => simpa [found] using mem

theorem list_modifyList (valid : cell < heap.lists.size) (change : ListCell → ListCell) :
    Heap.list { heap with lists := heap.lists.modify cell change } cell =
      (change (heap.listCell cell)).items.toList := by
  simp [list, listCell, Array.getElem_modify, valid]

theorem Writes.setObject (cell : Nat) (entries : Table String Value) :
    heap.Writes (.object cell) (heap.setObject cell entries) :=
  (Touches.setObject heap cell entries).writes

theorem mem_setObject {entries value}
    (mem : value ∈ (heap.setObject cell entries).contents (.object cell)) :
    value ∈ entries.values := by
  simp only [contents, object, Heap.setObject, Array.getElem?_setIfInBounds, if_true] at mem
  split at mem
  · exact mem
  · cases mem

theorem object_setObject (valid : cell < heap.objects.size) (entries : Table String Value) :
    (heap.setObject cell entries).object cell = entries := by
  simp [object, Heap.setObject, valid]

theorem Makes.pushList (items : List Value) :
    heap.Makes (.list heap.lists.size)
      { heap with lists := heap.lists.push { items := items.toArray } } where
  new := by simp [Handle.In]
  handles other := by
    cases other with
    | list position =>
      simp only [Handle.In, Array.size_push, Handle.list.injEq]
      omega
    | object position => simp [Handle.In]
  others other different := by
    cases other with
    | list position =>
      have away : position ≠ heap.lists.size := fun same =>
        different (congrArg Handle.list same)
      simp [contents, list, listCell, Array.getElem?_push, away]
    | object position => rfl

theorem contents_pushList (items : List Value) :
    Heap.contents { heap with lists := heap.lists.push { items := items.toArray } }
      (.list heap.lists.size) = items := by
  simp [contents, list, listCell]

theorem Makes.pushObject (entries : Table String Value) :
    heap.Makes (.object heap.objects.size)
      { heap with objects := heap.objects.push entries } where
  new := by simp [Handle.In]
  handles other := by
    cases other with
    | list position => simp [Handle.In]
    | object position =>
      simp only [Handle.In, Array.size_push, Handle.object.injEq]
      omega
  others other different := by
    cases other with
    | list position => rfl
    | object position =>
      have away : position ≠ heap.objects.size := fun same =>
        different (congrArg Handle.object same)
      simp [contents, object, Array.getElem?_push, away]

theorem contents_pushObject (entries : Table String Value) :
    Heap.contents { heap with objects := heap.objects.push entries }
      (.object heap.objects.size) = entries.values := by
  simp [contents, object]

end Heap

end Vimlet
