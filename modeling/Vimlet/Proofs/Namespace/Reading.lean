import Mathlib.Data.List.Basic
import Vimlet.Proofs.Namespace.Barrier
import Vimlet.Proofs.Namespace.Location

/-!
# Reads see the last write

A lookup takes the first location that holds a value. To bind a name is to put the value in a
location that the lookup of this name tries, before which it finds nothing; to remove a name is to
clear the first location, outside of the Builtin scope, that holds a value. Neither changes where
lookups try.
-/

namespace Vimlet

open List Frame

variable {α : Type}
variable {space after : Namespace α} {name : String} {location : Location} {value : α}
  {frames : List (Frame α)} {index : Nat} {places : List Location}

namespace Namespace

/-! ### Where a lookup tries -/

theorem frameReads_congr {others : List (Frame α)}
    (same : others.map (·.barrier) = frames.map (·.barrier)) (bare : String) (index : Nat) :
    frameReads bare index others = frameReads bare index frames := by
  induction frames generalizing others index with
  | nil => rw [map_eq_nil_iff.mp same]
  | cons frame outer ih =>
    obtain ⟨other, rest, rfl, same_barrier, same_rest⟩ := map_eq_cons_iff.mp same
    rw [frameReads, frameReads, same_barrier, ih same_rest]

theorem Updated.owners (updated : Updated space after) (name : String) :
    after.owners name = space.owners name := by
  simp only [Namespace.owners, Scoped.activeId, updated.buffer, updated.window, updated.script,
    frameReads_congr updated.frames.map_barrier]

theorem Updated.reads (updated : Updated space after) (name : String) :
    after.reads name = space.reads name := by
  simp only [Namespace.reads, updated.owners]

/-! ### Binding -/

/-- A lookup of the name gets to the location, and finds nothing before. -/
def Reaches (space : Namespace α) (name : String) (location : Location) : Prop :=
  ∃ before behind, space.owners name = .ok (before ++ location :: behind) ∧
    ∀ earlier ∈ before, space.valueAt? earlier = none

/-- The location in which a Local name is bound, given the frames from an index on. -/
def frameTarget (bare : String) : Nat → List (Frame α) → Location
  | _, [] => .global bare
  | index, frame :: outer =>
    if frame.bindings.contains bare || frame.barrier then .frame index bare
    else frameTarget bare (index + 1) outer

theorem frameTarget_eq (bare : String) (index : Nat) (frames : List (Frame α)) :
    frameTarget bare index frames =
      ((visibleIndex? (·.bindings.contains bare) frames).or (visibleIndex? (·.barrier) frames)).elim
        (.global bare) fun offset => .frame (index + offset) bare := by
  induction frames generalizing index with
  | nil => rfl
  | cons frame outer ih =>
    by_cases owns : frame.bindings.contains bare = true
    · simp [frameTarget, visibleIndex?, owns]
    · cases stops : frame.barrier with
      | true => simp [frameTarget, visibleIndex?, owns, stops]
      | false =>
        have next (offset : Nat) : index + 1 + offset = index + (offset + 1) := by omega
        cases owner : visibleIndex? (·.bindings.contains bare) outer <;>
          cases barrier : visibleIndex? (·.barrier) outer <;>
            simp [frameTarget, visibleIndex?, owns, stops, ih, owner, barrier, next]

theorem frameReads_reaches (space : Namespace α) (bare : String)
    (split : space.frames.drop index = frames) :
    ∃ before behind,
      frameReads bare index frames = before ++ frameTarget bare index frames :: behind ∧
      ∀ earlier ∈ before, space.valueAt? earlier = none := by
  induction frames generalizing index with
  | nil => exact ⟨[], [], rfl, forall_mem_nil _⟩
  | cons frame outer ih =>
    obtain ⟨value_eq, further⟩ := valueAt?_frame split bare
    by_cases here : (frame.bindings.contains bare || frame.barrier) = true
    · rw [frameTarget, if_pos here]
      exact ⟨[], _, rfl, forall_mem_nil _⟩
    · obtain ⟨before, behind, reads_eq, unbound⟩ := ih further
      rw [frameTarget, if_neg here]
      simp only [Bool.or_eq_true, not_or, Bool.not_eq_true] at here
      refine ⟨.frame index bare :: before, behind, ?_, ?_⟩
      · rw [frameReads, here.2, if_neg Bool.false_ne_true, reads_eq]
        rfl
      · rw [forall_mem_cons, value_eq]
        exact ⟨by simpa [Table.contains] using here.1, unbound⟩

/-- A name is bound in a location that the lookup of it reaches. -/
theorem location_reaches (found : space.location name = .ok location) :
    space.Reaches name location := by
  unfold Reaches owners
  unfold Namespace.location at found
  generalize resolve name = resolved at *
  rcases resolved with cause | ⟨scope, bare⟩
  · cases found
  cases scope with
  | global =>
    cases found
    exact ⟨[], [], rfl, forall_mem_nil _⟩
  | builtin => cases found
  | «local» =>
    cases found
    obtain ⟨before, behind, reads_eq, unbound⟩ :=
      frameReads_reaches space bare (drop_zero (l := space.frames))
    have target_eq : frameTarget bare 0 space.frames = space.localLocation bare := by
      rw [frameTarget_eq, localLocation]
      cases (visibleIndex? (·.bindings.contains bare) space.frames).or
        (visibleIndex? (·.barrier) space.frames) <;> simp
    exact ⟨before, behind, congrArg Except.ok (target_eq ▸ reads_eq), unbound⟩
  | buffer | window | script =>
    obtain ⟨id, active, rfl⟩ := Scoped.exists_of_located found
    exact ⟨[], [], by simp only [active]; rfl, forall_mem_nil _⟩

/-- A value was bound to a name: it was put in a location that the lookup of the name reaches. -/
structure Binds (space after : Namespace α) (name : String) (value : α) (location : Location) :
    Prop where
  updated : Updated space after
  reached : space.Reaches name location
  valueAt?_eq (other : Location) :
    after.valueAt? other = if other = location then some value else space.valueAt? other

theorem insert_binds (inserted : space.insert name value = .ok after) :
    ∃ location, Binds space after name value location := by
  obtain ⟨location, located, rfl⟩ := exists_put_of_insert inserted
  exact ⟨location, insert_updated inserted, location_reaches located,
    valueAt?_put (location_exists located) value⟩

theorem declare_binds (declared : space.declare name value = .ok after) :
    ∃ location, Binds space after name value location := by
  obtain ⟨bare, resolved, nonempty, rfl⟩ | inserted := declare_cases declared
  · obtain ⟨frame, outer, frames_eq⟩ := exists_cons_of_ne_nil nonempty
    have has : space.HasLocation (.frame 0 bare) := by simp [HasLocation, frames_eq]
    have owners_eq : space.owners name = .ok (frameReads bare 0 (frame :: outer)) := by
      simp only [owners, resolved, frames_eq]
      rfl
    exact ⟨.frame 0 bare, declare_updated declared, ⟨[], _, owners_eq, forall_mem_nil _⟩,
      valueAt?_put has value⟩
  · exact insert_binds inserted

/-! ### What lookups find after a binding -/

end Namespace

/-- Names of a scope are looked for in the location, if not first in others. -/
def Location.serves : Location → Scope → Bool
  | .global _, .global | .global _, .local | .builtin _, .builtin | .builtin _, .local
  | .buffer .., .buffer | .window .., .window | .script .., .script | .frame .., .local => true
  | _, _ => false

/-- The names are the same but for their scopes, which are the same or the Global and the Local one.
-/
def Akin (name other : String) : Prop :=
  ∃ scope scope' bare, resolve name = .ok (scope, bare) ∧ resolve other = .ok (scope', bare) ∧
    (scope = scope' ∨ (scope = .global ∧ scope' = .local) ∨ (scope = .local ∧ scope' = .global))

namespace Namespace

variable {place : Location}

theorem mem_frameReads {bare} (mem : place ∈ frameReads bare index frames) :
    place = .global bare ∨ ∃ index, place = .frame index bare := by
  induction frames generalizing index with
  | nil => exact .inl (mem_singleton.mp mem)
  | cons frame outer ih =>
    rw [frameReads] at mem
    obtain rfl | mem := mem_cons.mp mem
    · exact .inr ⟨index, rfl⟩
    · split at mem
      · cases mem
      · exact ih mem

theorem mem_owners (tried : space.owners name = .ok places) (mem : place ∈ places) :
    ∃ scope, resolve name = .ok (scope, place.bare) ∧ place.serves scope = true ∧
      ∀ bare, place ≠ .builtin bare := by
  unfold owners at tried
  generalize resolve name = resolved at *
  rcases resolved with cause | ⟨scope, bare⟩
  · cases tried
  cases scope with
  | global =>
    cases tried
    obtain rfl := mem_singleton.mp mem
    exact ⟨.global, rfl, rfl, nofun⟩
  | builtin =>
    cases tried
    cases mem
  | «local» =>
    cases tried
    obtain rfl | ⟨index, rfl⟩ := mem_frameReads mem
    · exact ⟨.local, rfl, rfl, nofun⟩
    · exact ⟨.local, rfl, rfl, nofun⟩
  | buffer | window | script =>
    obtain ⟨id, -, rfl⟩ := Scoped.exists_of_located tried
    obtain rfl := mem_singleton.mp mem
    exact ⟨_, rfl, rfl, nofun⟩

theorem mem_fallback (mem : place ∈ fallback name) :
    (∃ bare, place = .builtin bare) ∧
      ∃ scope, resolve name = .ok (scope, place.bare) ∧ place.serves scope = true := by
  unfold fallback at mem
  split at mem
  · next bare resolved =>
      obtain rfl := mem_singleton.mp mem
      exact ⟨⟨bare, rfl⟩, .builtin, resolved, rfl⟩
  · next bare resolved =>
      obtain rfl := mem_singleton.mp mem
      exact ⟨⟨bare, rfl⟩, .local, resolved, rfl⟩
  · cases mem

theorem mem_reads (tried : space.reads name = .ok places) (mem : place ∈ places) :
    ∃ scope, resolve name = .ok (scope, place.bare) ∧ place.serves scope = true := by
  unfold reads at tried
  cases owners_eq : space.owners name with
  | error cause =>
    rw [owners_eq] at tried
    cases tried
  | ok owners =>
    rw [owners_eq] at tried
    cases tried
    obtain owned | builtin := mem_append.mp mem
    · obtain ⟨scope, resolved, serves, -⟩ := mem_owners owners_eq owned
      exact ⟨scope, resolved, serves⟩
    · exact (mem_fallback builtin).2

/-- Two names that are looked for in one location outside of the Builtin scope are akin. -/
theorem akin_of_serves {other scope scope'} (resolved : resolve name = .ok (scope, place.bare))
    (resolved' : resolve other = .ok (scope', place.bare)) (serves : place.serves scope = true)
    (serves' : place.serves scope' = true) (apart : ∀ bare, place ≠ .builtin bare) :
    Akin name other := by
  refine ⟨scope, scope', place.bare, resolved, resolved', ?_⟩
  cases place with
  | builtin bare => exact absurd rfl (apart bare)
  | global | buffer | window | script | frame =>
    cases scope <;> cases scope' <;> simp_all [Location.serves]

section Changed

variable {before after : Location → Option α}

/-- If one location gets a value, a search finds what it found or the value. -/
theorem findSome?_changed
    (changed : ∀ place, after place = if place = location then some value else before place)
    (places : List Location) :
    places.findSome? after = places.findSome? before ∨
      places.findSome? after = some value ∧ location ∈ places := by
  induction places with
  | nil => exact .inl rfl
  | cons place rest ih =>
    simp only [findSome?_cons, changed place]
    by_cases here : place = location
    · exact .inr ⟨by rw [if_pos here], here ▸ mem_cons_self⟩
    · rw [if_neg here]
      cases before place with
      | some found => exact .inl rfl
      | none => exact ih.imp_right (And.imp_right (mem_cons_of_mem place))

/-- If the location that a search reaches gets a value, the search finds it there. -/
theorem findSome?_reached
    (changed : ∀ place, after place = if place = location then some value else before place) {front}
    (unbound : ∀ place ∈ front, before place = none) (behind : List Location) :
    (front ++ location :: behind).findSome? after = some value ∧
      (front ++ location :: behind).find? (after · |>.isSome) = some location := by
  induction front with
  | nil => simp [changed]
  | cons place front ih =>
    obtain ⟨here_unbound, unbound⟩ := forall_mem_cons.mp unbound
    by_cases here : place = location
    · simp [changed, here]
    · simpa [changed, here, here_unbound] using ih unbound

end Changed

section Binds

theorem Binds.find?_self (binds : Binds space after name value location) :
    after.find? name = .ok (some value) := by
  obtain ⟨front, behind, owners_eq, unbound⟩ := binds.reached
  rw [find?_eq, binds.updated.reads, reads, owners_eq]
  simp only [Except.map, append_assoc, cons_append]
  rw [(findSome?_reached binds.valueAt?_eq unbound (behind ++ fallback name)).1]

theorem Binds.find?_other (binds : Binds space after name value location) (other : String) :
    after.find? other = space.find? other ∨
      after.find? other = .ok (some value) ∧ Akin name other := by
  rw [find?_eq, find?_eq, binds.updated.reads]
  cases tried : space.reads other with
  | error cause => exact .inl rfl
  | ok places =>
    obtain same | ⟨found, mem⟩ := findSome?_changed binds.valueAt?_eq places
    · exact .inl (congrArg Except.ok same)
    · obtain ⟨front, behind, owners_eq, -⟩ := binds.reached
      obtain ⟨scope, resolved, serves, apart⟩ :=
        mem_owners owners_eq (mem_append_right front mem_cons_self)
      obtain ⟨scope', resolved', serves'⟩ := mem_reads tried mem
      exact .inr ⟨congrArg Except.ok found,
        akin_of_serves resolved resolved' serves serves' apart⟩

end Binds

/-! ### Removing -/

/-- The name is found outside of the Builtin scope: it is found, and all the same if that scope is
empty. -/
def Owned (space : Namespace α) (name : String) : Prop :=
  ∃ value, space.find? name = .ok (some value) ∧
    { space with builtins := {} }.find? name = .ok (some value)

theorem owned_iff :
    space.Owned name ↔ ∃ places, space.owners name = .ok places ∧
      ∃ place ∈ places, (space.valueAt? place).isSome = true := by
  have bare_owners : { space with builtins := {} }.owners name = space.owners name := rfl
  simp only [Owned, find?_eq, reads, bare_owners]
  cases owners_eq : space.owners name with
  | error cause => simp [Except.map]
  | ok places =>
    have same : ∀ place ∈ places,
        valueAt? { space with builtins := {} } place = space.valueAt? place := by
      intro place mem
      obtain ⟨scope, -, -, apart⟩ := mem_owners owners_eq mem
      cases place with
      | builtin bare => exact absurd rfl (apart bare)
      | global | buffer | window | script | frame => rfl
    have none_behind : (fallback name).findSome? (valueAt? { space with builtins := {} }) = none := by
      rw [findSome?_eq_none_iff]
      intro place mem
      obtain ⟨⟨bare, rfl⟩, -⟩ := mem_fallback mem
      rfl
    have same_found : places.findSome? (valueAt? { space with builtins := {} }) =
        places.findSome? space.valueAt? := by
      rw [← head?_filterMap, ← head?_filterMap, filterMap_congr same]
    simp only [Except.map, Except.ok.injEq, findSome?_append, none_behind, same_found,
      Option.or_none, exists_eq_left']
    rw [← findSome?_isSome_iff, Option.isSome_iff_exists]
    constructor
    · rintro ⟨value, -, found⟩
      exact ⟨value, found⟩
    · rintro ⟨value, found⟩
      exact ⟨value, by rw [found]; rfl, found⟩

theorem owners_builtin {bare} (resolved : resolve name = .ok (.builtin, bare)) (space : Namespace α) :
    space.owners name = .ok [] := by
  simp only [owners, resolved]
  rfl

/-- The Builtin scope is read-only. -/
theorem apply_remove_builtin (space : Namespace α) {bare}
    (resolved : resolve name = .ok (.builtin, bare)) :
    (Operation.remove name).apply space = (.error (.readOnlyNamespace name), space) := by
  have refused : space.remove? name = .error (.readOnlyNamespace name) := by
    simp only [remove?, resolved]
    rfl
  simp only [Operation.apply, refused]

/-- A name is removed exactly if it is found outside of the Builtin scope, and a removal of any other
name changes nothing. -/
theorem apply_remove (space : Namespace α) (name : String) :
    (((Operation.remove name).apply space).1 = .ok (.removed true) ↔ space.Owned name) ∧
      (¬ space.Owned name → ((Operation.remove name).apply space).2 = space) := by
  rw [owned_iff]
  by_cases builtin : ∃ bare, resolve name = .ok (.builtin, bare)
  · obtain ⟨bare, resolved⟩ := builtin
    simp [owners_builtin resolved, apply_remove_builtin space resolved]
  · simp only [Operation.apply, remove?_eq (not_exists.mp builtin)]
    cases space.owners name with
    | error cause => simp [Except.map]
    | ok places =>
      cases first : places.find? (space.valueAt? · |>.isSome) with
      | none =>
        have free := find?_eq_none.mp first
        simpa [Except.map, clearFirst?, first] using free
      | some place =>
        have bound := find?_some first
        have owned : ∃ place ∈ places, (space.valueAt? place).isSome = true :=
          ⟨place, mem_of_find?_eq_some first, bound⟩
        simp [Except.map, clearFirst?, first, owned]

/-- A binding of a name that is not found outside of the Builtin scope is taken back by a removal. -/
theorem Binds.find?_removed (binds : Binds space after name value location)
    (free : ¬ space.Owned name) (other : String) :
    ((Operation.remove name).apply after).2.find? other = space.find? other := by
  obtain ⟨front, behind, owners_eq, unbound⟩ := binds.reached
  -- the location was free, so the removal puts back what it held
  have location_free : space.valueAt? location = none := by
    rw [← Option.not_isSome_iff_eq_none]
    intro bound
    exact free (owned_iff.mpr ⟨_, owners_eq, location, by simp, bound⟩)
  have writable : ∀ bare, resolve name ≠ .ok (.builtin, bare) := by
    intro bare resolved
    rw [owners_builtin resolved] at owners_eq
    simp at owners_eq
  have removed : after.remove? name = .ok (some (after.clear location)) := by
    rw [remove?_eq writable, binds.updated.owners, owners_eq]
    simp only [Except.map, clearFirst?, (findSome?_reached binds.valueAt?_eq unbound behind).2]
    rfl
  have restored : (after.clear location).valueAt? = space.valueAt? := by
    funext place
    rw [valueAt?_clear, binds.valueAt?_eq]
    split
    · next here => rw [here, location_free]
    · rfl
  simp only [Operation.apply, removed]
  rw [find?_eq, find?_eq, restored, (remove_updated removed).reads, binds.updated.reads]

/-- Lookups see exactly the last write. A binding that succeeds gives the name its value, and
another name at most if the two are akin; one that fails changes nothing. A name is removed exactly
if it is found outside of the Builtin scope; if it is not, binding and removing it changes no
lookup. Names of the Builtin scope are refused. -/
theorem reads_see_last_write (space : Namespace α) (name other : String) (value : α) :
    (∀ write ∈ [Operation.insert name value, .declare name value],
      match write.apply space with
      | (.ok answer, after) =>
        answer = .done ∧ after.find? name = .ok (some value) ∧
          (after.find? other = space.find? other ∨
            after.find? other = .ok (some value) ∧ Akin name other)
      | (.error _, after) => after = space) ∧
    (((Operation.remove name).apply space).1 = .ok (.removed true) ↔ space.Owned name) ∧
    (∀ bare, resolve name = .ok (.builtin, bare) →
      (Operation.remove name).apply space = (.error (.readOnlyNamespace name), space)) ∧
    (¬ space.Owned name →
      (perform [.insert name value, .remove name] space).2.find? other = space.find? other) := by
  refine ⟨?_, (apply_remove space name).1, fun _ => apply_remove_builtin space, ?_⟩
  · simp only [forall_mem_cons, Operation.apply]
    refine ⟨?_, ?_, forall_mem_nil _⟩
    · cases inserted : space.insert name value with
      | error cause => rfl
      | ok after =>
        obtain ⟨location, binds⟩ := insert_binds inserted
        exact ⟨rfl, binds.find?_self, binds.find?_other other⟩
    · cases declared : space.declare name value with
      | error cause => rfl
      | ok after =>
        obtain ⟨location, binds⟩ := declare_binds declared
        exact ⟨rfl, binds.find?_self, binds.find?_other other⟩
  · intro free
    change ((Operation.remove name).apply
      ((Operation.insert name value).apply space).2).2.find? other = _
    cases inserted : space.insert name value with
    | error cause =>
      have after_eq : ((Operation.insert name value).apply space).2 = space := by
        simp only [Operation.apply, inserted, Operation.change]
      rw [after_eq, (apply_remove space name).2 free]
    | ok after =>
      obtain ⟨location, binds⟩ := insert_binds inserted
      have after_eq : ((Operation.insert name value).apply space).2 = after := by
        simp only [Operation.apply, inserted, Operation.change]
      rw [after_eq, binds.find?_removed free other]

theorem reads_see_last_write_builtin :
    let space : Namespace Nat := { builtins := ⟨[("y", 7)]⟩, frames := [{ barrier := false }] }
    ((Operation.insert "y" 2).apply space).2.find? "y" = .ok (some 2) ∧ ¬ space.Owned "y" ∧
      (perform [.insert "y" 2, .remove "y"] space).2.find? "g:y" = space.find? "g:y" ∧
      (Operation.remove "v:y").apply space = (.error (.readOnlyNamespace "v:y"), space) := by
  intro space
  obtain ⟨writes, -, -, restored⟩ := reads_see_last_write space "y" "g:y" 2
  have free : ¬ space.Owned "y" := by
    rintro ⟨value, -, found⟩
    cases found
  obtain ⟨-, -, refused, -⟩ := reads_see_last_write space "v:y" "y" 2
  exact ⟨(writes (.insert "y" 2) mem_cons_self).2.1, free, restored free, refused "y" rfl⟩

end Namespace

end Vimlet
