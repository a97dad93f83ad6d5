import Mathlib.Data.Set.Function
import Vimlet.Proofs.Value.Changes
import Vimlet.Proofs.Value.Reach

/-!
# Deep copies

A deep copy is a mirror image of what can be reached from a value: every container has one clone,
and the clone holds the mirror images of what the container holds.
-/

namespace Vimlet

open Value List Option

variable {heap : Heap} {value found inner : Value} {clone : Handle → Handle} {path : List Nat}
  {handles : List Handle}

open Relation

/-- The mirror image of a value: clones in place of containers, and new references to the same
functions. -/
def Value.mirror (clone : Handle → Handle) (renumber : Nat → Nat) : Value → Value
  | .list cell => (clone (.list cell)).value
  | .object cell => (clone (.object cell)).value
  | .function ref => .function { ref with serial := renumber ref.serial }
  | value => value

theorem Value.mirror_value (clone : Handle → Handle) (renumber : Nat → Nat) (handle : Handle) :
    handle.value.mirror clone renumber = (clone handle).value := by
  cases handle <;> rfl

theorem Value.handle?_mirror (clone : Handle → Handle) (renumber : Nat → Nat) (value : Value) :
    (value.mirror clone renumber).handle? = value.handle?.map clone := by
  cases value with
  | list | object => exact Handle.handle?_value _
  | nil | bool | integer | number | str | function => rfl

/-! ### Mirror images -/

/-- What can be reached from a value has a mirror image in another heap. -/
structure Heap.Mirrors (heap other : Heap) (value : Value) (clone : Handle → Handle)
    (renumber : Nat → Nat) : Prop where
  keys : ∀ handle, heap.Reaches value handle → other.keys (clone handle) = heap.keys handle
  contents : ∀ handle, heap.Reaches value handle →
    other.contents (clone handle) = (heap.contents handle).map (·.mirror clone renumber)
  injective : Set.InjOn clone {handle | heap.Reaches value handle}

/-- The value that a walk finds when it goes into containers at the given positions. -/
def Heap.follow (heap : Heap) : List Nat → Value → Option Value
  | [], value => some value
  | position :: path, value => do
    let handle ← value.handle?
    heap.follow path (← (heap.contents handle)[position]?)

def Heap.containerAt (heap : Heap) (value : Value) (path : List Nat) : Option Handle :=
  (heap.follow path value).bind Value.handle?

theorem Heap.follow_cons (heap : Heap) (position : Nat) (path : List Nat) (value : Value) :
    heap.follow (position :: path) value =
      (value.handle?.bind fun handle => (heap.contents handle)[position]?).bind
        (heap.follow path) := by
  cases container : value.handle? <;> simp [follow, container]

/-- A walk stays within what can be reached. -/
theorem Heap.reaches_of_follow (follows : heap.follow path value = some found) :
    ReflTransGen heap.Holds value found := by
  induction path generalizing value with
  | nil =>
    cases follows
    exact .refl
  | cons position path ih =>
    obtain ⟨next, step, rest⟩ := bind_eq_some_iff.mp ((follow_cons ..).symm.trans follows)
    obtain ⟨handle, container, there⟩ := bind_eq_some_iff.mp step
    exact .head ⟨handle, container, mem_of_getElem? there⟩ (ih rest)

theorem Heap.reaches_of_containerAt {handle} (there : heap.containerAt value path = some handle) :
    heap.Reaches value handle := by
  obtain ⟨found, follows, container⟩ := bind_eq_some_iff.mp there
  obtain rfl := eq_of_handle? container
  exact reaches_of_follow follows

namespace Heap.Mirrors

variable {other : Heap} {renumber : Nat → Nat} (mirrors : heap.Mirrors other value clone renumber)
include mirrors

theorem held (reaches : ReflTransGen heap.Holds value inner) :
    heap.Mirrors other inner clone renumber where
  keys handle inside := mirrors.keys handle (reaches.trans inside)
  contents handle inside := mirrors.contents handle (reaches.trans inside)
  injective := mirrors.injective.mono fun _ inside => reaches.trans inside

theorem reaches (inside : ReflTransGen heap.Holds value inner) :
    ReflTransGen other.Holds (value.mirror clone renumber) (inner.mirror clone renumber) := by
  induction inside with
  | refl => exact .refl
  | tail before last ih =>
    obtain ⟨handle, container, mem⟩ := last
    obtain rfl := eq_of_handle? container
    refine ih.tail ?_
    rw [mirror_value]
    exact .of_mem (mirrors.contents handle before ▸ mem_map_of_mem mem)

theorem reaches_inv (inside : ReflTransGen other.Holds (value.mirror clone renumber) found) :
    ∃ inner, ReflTransGen heap.Holds value inner ∧ inner.mirror clone renumber = found := by
  induction inside with
  | refl => exact ⟨value, .refl, rfl⟩
  | tail _ last ih =>
    obtain ⟨inner, before, rfl⟩ := ih
    obtain ⟨_, container, mem⟩ := last
    rw [handle?_mirror, map_eq_some_iff] at container
    obtain ⟨handle, inner_eq, rfl⟩ := container
    obtain rfl := eq_of_handle? inner_eq
    rw [mirrors.contents handle before] at mem
    obtain ⟨held, held_mem, rfl⟩ := mem_map.mp mem
    exact ⟨held, before.tail (.of_mem held_mem), rfl⟩

/-- The containers that can be reached from the mirror image are the clones. -/
theorem bijOn : Set.BijOn clone {handle | heap.Reaches value handle}
    {handle | other.Reaches (value.mirror clone renumber) handle} := by
  refine ⟨fun handle inside => ?_, mirrors.injective, fun image inside => ?_⟩
  · have reached := mirrors.reaches inside
    rwa [mirror_value] at reached
  · obtain ⟨inner, reached, same⟩ := mirrors.reaches_inv inside
    have container := handle?_mirror clone renumber inner
    rw [same, Handle.handle?_value, eq_comm, map_eq_some_iff] at container
    obtain ⟨handle, inner_eq, rfl⟩ := container
    obtain rfl := eq_of_handle? inner_eq
    exact ⟨handle, reached, rfl⟩

theorem follow_eq (path : List Nat) :
    other.follow path (value.mirror clone renumber) =
      (heap.follow path value).map (·.mirror clone renumber) := by
  induction path generalizing value with
  | nil => rfl
  | cons position path ih =>
    rw [follow_cons, follow_cons, handle?_mirror]
    cases container : value.handle? with
    | none => rfl
    | some handle =>
      obtain rfl := eq_of_handle? container
      simp only [map_some, bind_some]
      rw [mirrors.contents handle .refl, getElem?_map]
      cases there : (heap.contents handle)[position]? with
      | none => rfl
      | some held =>
        have holds : heap.Holds handle.value held := .of_mem (mem_of_getElem? there)
        exact ih (mirrors.held (.single holds))

theorem containerAt_eq (path : List Nat) :
    other.containerAt (value.mirror clone renumber) path =
      (heap.containerAt value path).map clone := by
  rw [containerAt, containerAt, mirrors.follow_eq]
  cases heap.follow path value with
  | none => rfl
  | some found => exact handle?_mirror clone renumber found

theorem containerAt_eq_iff (path path' : List Nat) :
    other.containerAt (value.mirror clone renumber) path =
        other.containerAt (value.mirror clone renumber) path' ↔
      heap.containerAt value path = heap.containerAt value path' := by
  rw [mirrors.containerAt_eq, mirrors.containerAt_eq]
  refine ⟨fun same => ?_, congrArg _⟩
  cases first : heap.containerAt value path with
  | none =>
    rw [first, map_none, eq_comm, map_eq_none_iff] at same
    exact same.symm
  | some handle =>
    rw [first, map_some, eq_comm, map_eq_some_iff] at same
    obtain ⟨handle', second, same⟩ := same
    rw [second, mirrors.injective (reaches_of_containerAt first) (reaches_of_containerAt second)
      same.symm]

end Heap.Mirrors

/-! ### Making the mirror image -/

theorem Value.redirect_eq_mirror (offset : Nat)
    (known : ∀ handle, value.handle? = some handle → handle ∈ handles) :
    value.redirect ⟨handles.map fun handle => (handle, (clone handle).value), offset⟩ =
      value.mirror clone (offset + ·) := by
  cases value with
  | list cell | object cell => simp [redirect, mirror, handle?, lookup_graph _ (known _ rfl)]
  | nil | bool | integer | number | str | function => rfl

theorem Heap.Mirrors.of_filled {after offset} (distinct : ((heap.reach value).map clone).Nodup)
    (filled : ∀ handle ∈ heap.reach value, after.keys (clone handle) = heap.keys handle ∧
      after.contents (clone handle) = (heap.contents handle).map (·.redirect
        ⟨(heap.reach value).map fun handle => (handle, (clone handle).value), offset⟩)) :
    heap.Mirrors after value clone (offset + ·) where
  keys handle reaches := (filled handle (mem_reach.mpr reaches)).1
  contents handle reaches := by
    rw [(filled handle (mem_reach.mpr reaches)).2]
    refine map_congr_left fun held mem => redirect_eq_mirror _ fun inner inner_eq => ?_
    refine mem_reach.mpr (reaches.inner (mem_inner.mpr ?_))
    rwa [← eq_of_handle? inner_eq]
  injective _ reaches _ reaches' same :=
    inj_on_of_nodup_map distinct (mem_reach.mpr reaches) (mem_reach.mpr reaches') same

namespace Mem

theorem fillClone_ok (clones : Clones) {model clone} (kind : clone.value.kind = model.value.kind)
    (valid : clone.In heap) :
    ∃ after, fillClone clones (model, clone.value) heap = .ok () after ∧
      heap.Touches clone after ∧ after.keys clone = heap.keys model ∧
      after.contents clone = (heap.contents model).map (·.redirect clones) := by
  cases model with
  | list source =>
    cases clone with
    | object => cases kind
    | list cell =>
      refine ⟨_, rfl, .modifyList heap cell _, rfl, ?_⟩
      have there : heap.lists[cell]? = some heap.lists[cell] := Array.getElem?_eq_getElem valid
      simp [Heap.contents, Heap.list, Heap.listCell, Heap.setList, Array.getElem?_modify, there]
  | object source =>
    cases clone with
    | list => cases kind
    | object cell =>
      have there : cell < heap.objects.size := valid
      refine ⟨_, rfl, .setObject heap cell _, ?_, ?_⟩
      · simp [Heap.keys, Heap.object, Heap.setObject, Table.keys, there]
      · simp [Heap.contents, Heap.object, Heap.setObject, Table.values, there]

/-- Clones are filled one after the other. None of them is a model, or filled twice. -/
theorem fillClones_ok (clones : Clones) {base} (grows : base.Grows heap)
    (distinct : (handles.map clone).Nodup)
    (each : ∀ handle ∈ handles, handle.In base ∧ (clone handle).value.kind = handle.value.kind ∧
      ¬(clone handle).In base ∧ (clone handle).In heap) :
    ∃ after, (handles.map fun handle => (handle, (clone handle).value)).forM (fillClone clones)
        heap = .ok () after ∧
      base.Grows after ∧ (∀ handle : Handle, handle.In after ↔ handle.In heap) ∧
      (∀ handle ∉ handles.map clone, after.keys handle = heap.keys handle ∧
        after.contents handle = heap.contents handle) ∧
      ∀ handle ∈ handles, after.keys (clone handle) = base.keys handle ∧
        after.contents (clone handle) = (base.contents handle).map (·.redirect clones) := by
  induction handles generalizing heap with
  | nil => exact ⟨heap, rfl, grows, fun _ => .rfl, fun _ _ => ⟨rfl, rfl⟩, nofun⟩
  | cons handle rest ih =>
    obtain ⟨⟨model_valid, kind, new, valid⟩, others⟩ := forall_mem_cons.mp each
    obtain ⟨unlisted, rest_distinct⟩ := nodup_cons.mp distinct
    obtain ⟨middle, filled, touches, keys, contents⟩ := fillClone_ok clones kind valid
    obtain ⟨after, run, after_grows, same_handles, unchanged, rest_filled⟩ :=
      ih (touches.grows grows new) rest_distinct fun other mem => by
        obtain ⟨model_valid, kind, new, valid⟩ := others other mem
        exact ⟨model_valid, kind, new, (touches.handles _).mpr valid⟩
    refine ⟨after, ?_, after_grows, fun other => ?_, fun other outside => ?_,
      forall_mem_cons.mpr ⟨?_, rest_filled⟩⟩
    · exact (Run.bind_ok filled).trans run
    · exact (same_handles other).trans (touches.handles other)
    · rw [map_cons, mem_cons, not_or] at outside
      obtain ⟨same_keys, same_contents⟩ := unchanged other outside.2
      rw [same_keys, same_contents]
      exact ⟨touches.keys_eq outside.1, touches.contents_eq outside.1⟩
    · obtain ⟨same_keys, same_contents⟩ := unchanged (clone handle) unlisted
      rw [same_keys, same_contents, keys, contents, grows.keys_eq model_valid,
        grows.contents_eq model_valid]
      exact ⟨rfl, rfl⟩

/-- A deep copy is made of new containers and is a mirror image. -/
theorem deepCopy_ok (closed : heap.Closed) (valid : value.In heap) :
    ∃ after clone renumber, deepCopy value heap = .ok (value.mirror clone renumber) after ∧
      heap.Grows after ∧ heap.Mirrors after value clone renumber ∧ Function.Injective renumber ∧
      ∀ handle, heap.Reaches value handle → (clone handle).value.kind = handle.value.kind ∧
        ¬(clone handle).In heap ∧ (clone handle).In after := by
  obtain ⟨clone, made, likes, made_grows, distinct, each⟩ :=
    newLikes_eq (heap.nodup_reach value) heap
  let clones : Clones := ⟨(heap.reach value).map fun handle => (handle, (clone handle).value),
    made.nextSerial⟩
  let numbered : Heap := { made with nextSerial := 2 * made.nextSerial }
  have numbered_grows : heap.Grows numbered := ⟨made_grows.lists, made_grows.objects⟩
  have in_numbered (handle : Handle) : handle.In numbered ↔ handle.In made := by
    cases handle <;> rfl
  obtain ⟨after, fills, grows, same_handles, _, filled⟩ :=
    fillClones_ok clones numbered_grows distinct fun handle mem => by
      obtain ⟨kind, new, clone_valid⟩ := each handle mem
      exact ⟨closed.reach_in valid handle mem, kind, new, (in_numbered _).mpr clone_valid⟩
  have run : deepCopy value heap = .ok (value.redirect clones) after := by
    change (newLikes (heap.reach value) >>= fun containers => newSerials >>= fun offset =>
      containers.forM (fillClone ⟨containers, offset⟩) >>= fun _ =>
        pure (value.redirect ⟨containers, offset⟩)) heap = _
    have serials : newSerials made = .ok made.nextSerial numbered := rfl
    rw [Run.bind_ok likes, Run.bind_ok serials, Run.bind_ok fills]
    rfl
  refine ⟨after, clone, (made.nextSerial + ·), ?_, grows, .of_filled distinct filled,
    add_right_injective _, ?_⟩
  · rw [run, redirect_eq_mirror]
    intro handle container
    refine Heap.mem_reach.mpr ?_
    rw [eq_of_handle? container]
    exact .refl
  · intro handle reaches
    obtain ⟨kind, new, clone_valid⟩ := each handle (Heap.mem_reach.mpr reaches)
    exact ⟨kind, new, (same_handles _).mpr ((in_numbered _).mpr clone_valid)⟩

end Mem

end Vimlet
