import Vimlet.Proofs.Value.Acyclic

/-!
# Copies of values

A copy of a value has the same unfoldings in a heap that has grown out of the one of the value. A
new container with copies of what an old one holds is a copy of the old one.
-/

namespace Vimlet

variable {base heap later : Heap} {value : Value} {cell : Nat}

/-- A value of a later heap with the contents of an old value. -/
structure Copies (base heap : Heap) (value copy : Value) : Prop where
  valid : copy.In heap
  unfold_eq (depth : Nat) : heap.unfold depth copy = base.unfold depth value

theorem Copies.grow {copy} (closed : heap.Closed) (grows : heap.Grows later)
    (copies : Copies base heap value copy) :
    Copies base later value copy where
  valid handle handle_eq := grows.handle_in handle (copies.valid handle handle_eq)
  unfold_eq depth := by rw [grows.unfold_eq closed copies.valid, copies.unfold_eq]

theorem Copies.of_scalar (scalar : value.handle? = none) :
    Copies base heap value value where
  valid := Value.in_of_scalar scalar
  unfold_eq depth := by cases depth <;> cases value <;> first | rfl | cases scalar

/-- A heap and the one that has grown out of it by one container, whose contents are copies. -/
structure Heap.AddsCopy (base heap later : Heap) (first second : Handle) : Prop where
  grows : heap.Grows later
  new : second.In later
  only : ∀ handle, handle.In later → handle.In heap ∨ handle = second
  keys : base.keys first = later.keys second
  contents : List.Forall₂ (Copies base heap) (base.contents first) (later.contents second)

namespace Heap.AddsCopy

variable {first second : Handle} (closed : heap.Closed)
  (adds : Heap.AddsCopy base heap later first second)
include closed adds

theorem later_closed : later.Closed := by
  intro handle value mem other other_eq
  by_cases valid : handle.In later
  · obtain old | rfl := adds.only handle valid
    · rw [adds.grows.contents_eq old] at mem
      exact adds.grows.handle_in other (closed handle value mem other other_eq)
    · have copy_valid := forall_of_forall₂ adds.contents (fun _ _ => Copies.valid) value mem
      exact adds.grows.handle_in other (copy_valid other other_eq)
  · rw [Heap.contents_eq_nil valid] at mem
    cases mem

theorem copies : Copies base later first.value second.value where
  valid := by
    intro handle handle_eq
    cases second <;> cases handle_eq <;> exact adds.new
  unfold_eq depth := by
    have contents : List.Forall₂ (Copies base later) (base.contents first)
        (later.contents second) := adds.contents.imp fun _ _ => .grow closed adds.grows
    have keys := adds.keys
    cases depth with
    | zero => rfl
    | succ depth =>
      cases first with
      | list cell =>
        cases second with
        | list other =>
          refine congrArg Unfolding.list (Eq.symm ?_)
          exact map_eq_map_of_forall₂ contents fun _ _ _ _ same => (same.unfold_eq depth).symm
        | object other => cases keys
      | object cell =>
        cases second with
        | list other => cases keys
        | object other =>
          refine congrArg Unfolding.object (Eq.symm ?_)
          refine map_eq_map_of_forall₂
            (forall₂_sameEntry (Option.some.inj keys) contents) fun _ _ _ _ same => ?_
          rw [same.1, same.2.unfold_eq depth]

end Heap.AddsCopy

theorem Heap.AddsCopy.pushList {copies}
    (same : List.Forall₂ (Copies base heap) (base.list cell) copies) :
    Heap.AddsCopy base heap { heap with lists := heap.lists.push { items := copies.toArray } }
      (.list cell) (.list heap.lists.size) where
  grows := .pushList heap _
  new := by simp [Handle.In]
  only handle valid := by
    cases handle with
    | list other =>
      have : other < heap.lists.size + 1 := by simpa [Handle.In] using valid
      obtain less | rfl : other < heap.lists.size ∨ other = heap.lists.size := by omega
      · exact .inl less
      · exact .inr rfl
    | object other => exact .inl valid
  keys := rfl
  contents := by simpa [Heap.contents, Heap.list, Heap.listCell] using same

theorem Heap.AddsCopy.pushObject (table : Table String Value)
    (same : List.Forall₂ (SameEntry (Copies base heap)) (base.object cell).entries table.entries) :
    Heap.AddsCopy base heap { heap with objects := heap.objects.push table }
      (.object cell) (.object heap.objects.size) where
  grows := .pushObject heap _
  new := by simp [Handle.In]
  only handle valid := by
    cases handle with
    | list other => exact .inl valid
    | object other =>
      have : other < heap.objects.size + 1 := by simpa [Handle.In] using valid
      obtain less | rfl : other < heap.objects.size ∨ other = heap.objects.size := by omega
      · exact .inl less
      · exact .inr rfl
  keys := by
    have keys := map_eq_map_of_forall₂ same fun _ _ _ _ same => same.1
    simpa [Heap.keys, Heap.object, Table.keys] using keys
  contents := by
    have values := List.forall₂_map_left_iff.mpr
      (List.forall₂_map_right_iff.mpr (same.imp fun _ _ same => same.2))
    simpa [Heap.contents, Heap.object, Table.values] using values

end Vimlet
