import Vimlet.Proofs.Session.Ending
import Vimlet.Proofs.Value.Correspondence
import Vimlet.Value.Copy

/-!
# New containers for a copy

A deep copy first makes an empty container for each one that it can reach. These are new and
distinct, and all that was there before stays as it is.
-/

namespace Vimlet

open List

variable {heap : Heap} {handle : Handle} {value : Value} {handles : List Handle}

/-- The containers of one heap are in another one, with the same contents. -/
def Heap.Keeps (base heap : Heap) : Prop :=
  ∀ handle : Handle, handle.In base → handle.In heap ∧ heap.contents handle = base.contents handle

theorem Heap.Grows.keeps {small big : Heap} (grows : small.Grows big) : small.Keeps big :=
  fun handle valid => ⟨grows.handle_in handle valid, grows.contents_eq valid⟩

/-- What reaching containers adds has a property that containers share with what they hold. -/
theorem Heap.forall_reachFrom {property : Handle → Prop}
    (inherited : ∀ handle, property handle → ∀ inner ∈ heap.inner handle, property inner) {fuel met}
    (met_all : ∀ other ∈ met, property other) (own : property handle) :
    ∀ other ∈ heap.reachFrom fuel met handle, property other := by
  induction fuel generalizing met handle with
  | zero => exact met_all
  | succ fuel ih =>
    unfold reachFrom
    split
    · exact met_all
    · refine foldlRecOn (heap.inner handle) _
        (motive := fun met => ∀ other ∈ met, property other) ?_ fun met so_far inner mem => ?_
      · intro other mem
        obtain mem | mem := mem_append.mp mem
        · exact met_all other mem
        · exact mem_singleton.mp mem ▸ own
      · exact ih so_far (inherited handle own inner mem)

theorem Heap.Closed.reach_in (closed : heap.Closed) (valid : value.In heap) :
    ∀ handle ∈ heap.reach value, handle.In heap := by
  unfold reach
  split
  · rename_i handle is_handle
    refine forall_reachFrom (fun outer _ inner mem => ?_) nofun (valid handle is_handle)
    obtain ⟨held, held_mem, is_inner⟩ := mem_filterMap.mp mem
    exact closed outer held held_mem inner is_inner
  · exact nofun

/-! ### New containers -/

theorem Mem.newLike_ok (handle : Handle) (heap : Heap) :
    ∃ (clone : Handle) (after : Heap), newLike handle heap = .ok clone.value after ∧
      heap.Grows after ∧ ¬clone.In heap ∧ clone.In after := by
  cases handle with
  | list cell =>
    exact ⟨.list heap.lists.size, _, rfl, .pushList heap _, by simp [Handle.In],
      by simp [Handle.In]⟩
  | object cell =>
    exact ⟨.object heap.objects.size, _, rfl, .pushObject heap _, by simp [Handle.In],
      by simp [Handle.In]⟩

/-- Makes an empty container of the same kind for each container. -/
def Mem.newLikes (handles : List Handle) : Mem (List (Handle × Value)) :=
  handles.mapM fun handle => return (handle, ← newLike handle)

theorem Mem.newLikes_cons (handle : Handle) (rest : List Handle) :
    newLikes (handle :: rest) = do
      let clone ← newLike handle
      let more ← newLikes rest
      return (handle, clone) :: more := by
  simp only [newLikes, mapM_cons, bind_assoc, pure_bind]

theorem Mem.kind_of_newLike {after} (made : newLike handle heap = .ok value after) :
    value.kind = handle.value.kind := by
  cases handle <;> cases made <;> rfl

/-- A clone of its own is made for each container. -/
theorem Mem.newLikes_eq (distinct : handles.Nodup) (heap : Heap) :
    ∃ (clone : Handle → Handle) (after : Heap),
      newLikes handles heap = .ok (handles.map fun handle => (handle, (clone handle).value)) after ∧
      heap.Grows after ∧ (handles.map clone).Nodup ∧
      ∀ handle ∈ handles, (clone handle).value.kind = handle.value.kind ∧
        ¬(clone handle).In heap ∧ (clone handle).In after := by
  induction handles generalizing heap with
  | nil => exact ⟨id, heap, rfl, .refl heap, nodup_nil, nofun⟩
  | cons handle rest ih =>
    obtain ⟨fresh, rest_distinct⟩ := nodup_cons.mp distinct
    obtain ⟨first, middle, made, grows, new, valid⟩ := newLike_ok handle heap
    obtain ⟨clone, after, made_rest, grows_rest, clones_distinct, each⟩ := ih rest_distinct middle
    -- the clone of the first container is kept apart from those of the rest
    have others : ∀ other ∈ rest, Function.update clone handle first other = clone other :=
      fun other mem => Function.update_of_ne (ne_of_mem_of_not_mem mem fresh) ..
    have own : Function.update clone handle first handle = first := Function.update_self ..
    refine ⟨Function.update clone handle first, after, ?_, grows.trans grows_rest, ?_, ?_⟩
    · have pairs : rest.map (fun other =>
          (other, (Function.update clone handle first other).value)) =
          rest.map fun other => (other, (clone other).value) :=
        map_congr_left fun other mem => by rw [others other mem]
      rw [newLikes_cons, Run.bind_ok made, Run.bind_ok made_rest, map_cons, own, pairs]
      rfl
    · rw [map_cons, own, map_congr_left others]
      refine nodup_cons.mpr ⟨fun mem => ?_, clones_distinct⟩
      obtain ⟨other, other_mem, rfl⟩ := mem_map.mp mem
      exact (each other other_mem).2.1 valid
    · refine forall_mem_cons.mpr ⟨?_, fun other mem => ?_⟩
      · rw [own]
        exact ⟨kind_of_newLike made, new, grows_rest.handle_in first valid⟩
      · obtain ⟨kind, other_new, other_valid⟩ := each other mem
        rw [others other mem]
        exact ⟨kind, fun old => other_new (grows.handle_in _ old), other_valid⟩

/-- Distinct containers stand beside others. -/
structure Clones.Fresh (base : Heap) (containers : List (Handle × Value)) : Prop where
  new : ∀ pair ∈ containers, ∃ clone : Handle, pair.2 = clone.value ∧ ¬clone.In base
  distinct : (containers.map (·.2)).Nodup

theorem Mem.newLikes_ok (distinct : handles.Nodup) (heap : Heap) :
    ∃ containers after, newLikes handles heap = .ok containers after ∧ heap.Grows after ∧
      containers.map (·.1) = handles ∧ Clones.Fresh heap containers := by
  obtain ⟨clone, after, made, grows, clones_distinct, each⟩ := newLikes_eq distinct heap
  refine ⟨_, after, made, grows, by simp [Function.comp_def], fun pair mem => ?_, ?_⟩
  · obtain ⟨handle, handle_mem, rfl⟩ := mem_map.mp mem
    exact ⟨clone handle, rfl, (each handle handle_mem).2.1⟩
  · rw [map_map]
    have values := clones_distinct.map Handle.value_injective
    rwa [map_map] at values

end Vimlet
