import Vimlet.Proofs.Value.Acyclic
import Vimlet.Proofs.Value.Clones

/-!
# Containers that can be reached

The search for the containers that can be reached from a value goes into each container once. It
finds exactly the containers that a walk along contents leads to, and lists none of them twice.
-/

namespace Vimlet

variable {outer handle : Handle} {value : Value} {met : List Handle} {fuel : Nat}

open Relation

namespace Heap

variable {heap : Heap}

theorem mem_inner {inner} : inner ∈ heap.inner outer ↔ inner.value ∈ heap.contents outer := by
  refine List.mem_filterMap.trans ⟨?_, fun mem => ⟨_, mem, inner.handle?_value⟩⟩
  rintro ⟨held, mem, held_eq⟩
  exact Value.eq_of_handle? held_eq ▸ mem

theorem Reaches.inner {inner} (reaches : heap.Reaches value outer) (mem : inner ∈ heap.inner outer) :
    heap.Reaches value inner :=
  ReflTransGen.tail reaches (.of_mem (mem_inner.mp mem))

/-! ### The search -/

/-- After a search, what lies directly inside of each container that it has added has been found. -/
structure Explores (heap : Heap) (met found : List Handle) : Prop where
  keeps : met ⊆ found
  inside : ∀ handle ∈ found, handle ∉ met → ∀ inner ∈ heap.inner handle, inner ∈ found
  distinct : met.Nodup → found.Nodup

namespace Explores

theorem refl (met : List Handle) : heap.Explores met met where
  keeps := List.Subset.refl met
  inside _ mem new := absurd mem new
  distinct := id

theorem trans {first second third} (before : heap.Explores first second)
    (after : heap.Explores second third) : heap.Explores first third where
  keeps := List.Subset.trans before.keeps after.keeps
  inside handle mem new inner inner_mem := by
    by_cases early : handle ∈ second
    · exact after.keeps (before.inside handle early new inner inner_mem)
    · exact after.inside handle mem early inner inner_mem
  distinct nodup := after.distinct (before.distinct nodup)

/-- A container has been explored when everything directly inside of it has been met. -/
theorem enter {found} (fresh : handle ∉ met) (explores : heap.Explores (met ++ [handle]) found)
    (inside : ∀ inner ∈ heap.inner handle, inner ∈ found) : heap.Explores met found where
  keeps := List.Subset.trans (List.subset_append_left met [handle]) explores.keeps
  inside other mem new := by
    by_cases same : other = handle
    · exact same ▸ inside
    · exact explores.inside other mem (by simp [new, same])
  distinct nodup := explores.distinct (nodup.append (List.nodup_singleton handle) (by simpa))

/-- One search after the other, each of which may go as far as the first one. -/
theorem foldl
    (search : ∀ {met} handle, unvisited heap.handles met < fuel →
      heap.Explores met (heap.reachFrom fuel met handle) ∧ handle ∈ heap.reachFrom fuel met handle)
    (enough : unvisited heap.handles met < fuel) (handles : List Handle) :
    heap.Explores met (handles.foldl (heap.reachFrom fuel) met) ∧
      ∀ handle ∈ handles, handle ∈ handles.foldl (heap.reachFrom fuel) met := by
  induction handles generalizing met with
  | nil => exact ⟨.refl met, nofun⟩
  | cons handle rest ih =>
    obtain ⟨first, found⟩ := search handle enough
    have still := (unvisited_le_of_subset heap.handles first.keeps).trans_lt enough
    obtain ⟨others, all_found⟩ := ih still
    exact ⟨first.trans others, List.forall_mem_cons.mpr ⟨others.keeps found, all_found⟩⟩

theorem reachFrom (handle : Handle) (enough : unvisited heap.handles met < fuel) :
    heap.Explores met (heap.reachFrom fuel met handle) ∧
      handle ∈ heap.reachFrom fuel met handle := by
  induction fuel generalizing met handle with
  | zero => exact absurd enough (Nat.not_lt_zero _)
  | succ fuel ih =>
    unfold Heap.reachFrom
    split
    · rename_i again
      exact ⟨.refl met, by simpa using again⟩
    · rename_i new
      have fresh : handle ∉ met := by simpa using new
      -- a container that holds another one is one of the heap, so fewer are left to visit
      by_cases empty : heap.inner handle = []
      · rw [empty]
        exact ⟨.enter fresh (.refl _) (by simp [empty]), by simp⟩
      · obtain ⟨inner, mem⟩ := List.exists_mem_of_ne_nil _ empty
        have fewer := unvisited_enter_lt fresh (mem_inner.mp mem)
        have same : unvisited heap.handles (met ++ [handle]) ≤
            unvisited heap.handles (handle :: met) := unvisited_le_of_subset _ (by simp)
        obtain ⟨explores, inside⟩ := foldl (fun handle => ih handle)
          (by omega : unvisited heap.handles (met ++ [handle]) < fuel) (heap.inner handle)
        exact ⟨.enter fresh explores inside, explores.keeps (by simp)⟩

end Explores

/-- The bound on the search is never met. -/
theorem explores_reach (container : value.handle? = some handle) :
    heap.Explores [] (heap.reach value) ∧ handle ∈ heap.reach value := by
  have bound := (unvisited_le heap.handles []).trans heap.card_handles_le
  simp only [reach, container]
  exact Explores.reachFrom handle (by omega)

theorem nodup_reach (heap : Heap) (value : Value) : (heap.reach value).Nodup := by
  cases container : value.handle? with
  | none => simp [reach, container]
  | some handle => exact (explores_reach container).1.distinct List.nodup_nil

/-- The search finds exactly the containers that can be reached. -/
theorem mem_reach : handle ∈ heap.reach value ↔ heap.Reaches value handle := by
  constructor
  · unfold reach
    split
    · rename_i root container
      refine forall_reachFrom (fun _ reaches _ mem => reaches.inner mem) nofun ?_ handle
      exact Value.eq_of_handle? container ▸ .refl
    · exact nofun
  · intro reaches
    have found {inner : Value} (reaches : ReflTransGen heap.Holds value inner) :
        ∀ handle, inner.handle? = some handle → handle ∈ heap.reach value := by
      induction reaches with
      | refl => exact fun handle container => (explores_reach container).2
      | tail _ holds ih =>
        intro handle container
        obtain ⟨outer, outer_eq, mem⟩ := holds
        obtain ⟨root, root_eq⟩ : ∃ root, value.handle? = some root := by
          by_contra scalar
          have none_met := ih outer outer_eq
          simp [reach, Option.eq_none_iff_forall_ne_some.mpr (not_exists.mp scalar)] at none_met
        refine (explores_reach root_eq).1.inside outer (ih outer outer_eq) List.not_mem_nil
          handle ?_
        exact mem_inner.mpr (Value.eq_of_handle? container ▸ mem)
    exact found reaches handle handle.handle?_value

end Heap

end Vimlet
