import Vimlet.Proofs.Namespace.Update
import Vimlet.Proofs.Table

/-!
# Where names are bound

A namespace as a map from locations to values: to bind a name is to find its location and to put the
value there; every other location keeps what it holds.
-/

namespace Vimlet

open Table Frame

variable {α : Type}
variable {name : String} {index : Nat} {frames : List (Frame α)} {store : Scoped α} {scope : Scope}

/-- A location in a namespace, with the bare name that is bound there. -/
inductive Location where
  | global (bare : String)
  | builtin (bare : String)
  | buffer (id : ScopeId) (bare : String)
  | window (id : ScopeId) (bare : String)
  | script (id : ScopeId) (bare : String)
  /-- A frame, counted from the innermost one. -/
  | frame (index : Nat) (bare : String)
deriving DecidableEq, Repr

def Location.bare : Location → String
  | .global bare | .builtin bare | .buffer _ bare | .window _ bare | .script _ bare
  | .frame _ bare => bare

/-- A location outside of the frames. -/
def Location.isShared : Location → Bool
  | .frame _ _ => false
  | _ => true

/-! ### Frames -/

namespace Frame

/-- The innermost visible frame with a property. -/
def visibleIndex? (found : Frame α → Bool) : List (Frame α) → Option Nat
  | [] => none
  | frame :: outer =>
    if found frame then some 0
    else if frame.barrier then none
    else (visibleIndex? found outer).map (· + 1)

theorem update_eq (found : Frame α → Bool) (change : Frame α → Frame α)
    (frames : List (Frame α)) :
    update found change frames = (visibleIndex? found frames).map (frames.modify · change) := by
  induction frames with
  | nil => rfl
  | cons frame outer ih =>
    by_cases here : found frame = true
    · simp [update, visibleIndex?, here]
    · cases stops : frame.barrier with
      | true => simp [update, visibleIndex?, here, stops]
      | false => simp [update, visibleIndex?, here, stops, ih, Function.comp_def]

theorem visibleIndex?_lt {found} (visible : visibleIndex? found frames = some index) :
    index < frames.length := by
  induction frames generalizing index with
  | nil => cases visible
  | cons frame outer ih =>
    unfold visibleIndex? at visible
    split at visible
    · cases visible
      simp
    · split at visible
      · cases visible
      · obtain ⟨inner, inner_visible, rfl⟩ := Option.map_eq_some_iff.mp visible
        simpa using ih inner_visible

end Frame

/-! ### Tables of identities -/

namespace Scoped

/-- The value of a name in the table of an identity. -/
def valueAt? (store : Scoped α) (id : ScopeId) (bare : String) : Option α :=
  (store.tables.get? id).bind (·.get? bare)

/-- Changes the table of an identity. -/
def alter (store : Scoped α) (id : ScopeId) (change : Table String α → Table String α) : Scoped α :=
  { store with tables := store.tables.insert id (change ((store.tables.get? id).getD {})) }

theorem valueAt?_alter (store : Scoped α) (id other : ScopeId) (name : String)
    (change : Table String α → Table String α) :
    (store.alter id change).valueAt? other name =
      if other = id then (change ((store.tables.get? id).getD {})).get? name
      else store.valueAt? other name := by
  by_cases same : other = id <;> simp [alter, valueAt?, get?_insert, same]

theorem get?_getD (store : Scoped α) (id : ScopeId) (bare : String) :
    ((store.tables.get? id).getD {}).get? bare = store.valueAt? id bare := by
  unfold valueAt?
  cases store.tables.get? id <;> rfl

theorem contains_getD (store : Scoped α) (id : ScopeId) (bare : String) :
    ((store.tables.get? id).getD {}).contains bare = (store.valueAt? id bare).isSome :=
  congrArg Option.isSome (store.get?_getD id bare)

/-- What is made of the active identity, such as a location in its table. -/
theorem exists_of_located {β : Type} {make : ScopeId → β} {location}
    (located : (do return make (← store.activeId scope)) = .ok location) :
    ∃ id, store.activeId scope = .ok id ∧ location = make id := by
  cases active : store.activeId scope with
  | error cause =>
    rw [active] at located
    cases located
  | ok id =>
    rw [active] at located
    exact ⟨id, rfl, (Except.ok.inj located).symm⟩

theorem get?_of_activeId {other : Scoped α} (same : store.active = other.active) {id}
    (active : other.activeId scope = .ok id) (bare : String) :
    (store.table scope).map (·.get? bare) = .ok (store.valueAt? id bare) := by
  have store_active : store.activeId scope = .ok id := by
    rw [← active]
    unfold activeId
    rw [same]
  simp only [table, store_active]
  exact congrArg Except.ok (store.get?_getD id bare)

end Scoped

/-! ### Namespaces -/

namespace Namespace

variable {space after : Namespace α} {value : α}

/-- The value that is bound in a location. -/
def valueAt? (space : Namespace α) : Location → Option α
  | .global bare => space.globals.get? bare
  | .builtin bare => space.builtins.get? bare
  | .buffer id bare => space.buffers.valueAt? id bare
  | .window id bare => space.windows.valueAt? id bare
  | .script id bare => space.scripts.valueAt? id bare
  | .frame index bare => space.frames[index]?.bind (·.bindings.get? bare)

/-- Changes the table that a location lies in. -/
def alter (space : Namespace α) (change : Table String α → Table String α) :
    Location → Namespace α
  | .global _ => { space with globals := change space.globals }
  | .builtin _ => { space with builtins := change space.builtins }
  | .buffer id _ => { space with buffers := space.buffers.alter id change }
  | .window id _ => { space with windows := space.windows.alter id change }
  | .script id _ => { space with scripts := space.scripts.alter id change }
  | .frame index _ =>
    { space with
      frames := space.frames.modify index fun frame =>
        { frame with bindings := change frame.bindings } }

def put (space : Namespace α) (value : α) (location : Location) : Namespace α :=
  space.alter (·.insert location.bare value) location

def clear (space : Namespace α) (location : Location) : Namespace α :=
  space.alter (·.erase location.bare) location

/-- The location in which a Local name is bound. -/
def localLocation (space : Namespace α) (bare : String) : Location :=
  match (visibleIndex? (·.bindings.contains bare) space.frames).or
      (visibleIndex? (·.barrier) space.frames) with
  | some index => .frame index bare
  | none => .global bare

/-- The location in which a name is bound. -/
def location (space : Namespace α) (name : String) : Except Fault Location := do
  match ← resolve name with
  | (.global, bare) => return .global bare
  | (.builtin, _) => throw (.readOnlyNamespace name)
  | (.buffer, bare) => return .buffer (← space.buffers.activeId .buffer) bare
  | (.window, bare) => return .window (← space.windows.activeId .window) bare
  | (.script, bare) => return .script (← space.scripts.activeId .script) bare
  | (.local, bare) => return space.localLocation bare

theorem insertLocal_eq (space : Namespace α) (bare : String) (value : α) :
    space.insertLocal bare value = space.put value (space.localLocation bare) := by
  simp only [insertLocal, localLocation, update_eq]
  cases visibleIndex? (·.bindings.contains bare) space.frames with
  | some index => rfl
  | none => cases visibleIndex? (·.barrier) space.frames <;> rfl

/-- To bind a name is to put the value in its location. -/
theorem insert_eq (space : Namespace α) (name : String) (value : α) :
    space.insert name value = (space.location name).map (space.put value) := by
  simp only [insert, location]
  rcases resolve name with cause | ⟨scope, bare⟩
  · rfl
  cases scope with
  | global | builtin => rfl
  | «local» => simp only [bind, Except.bind, insertLocal_eq]; rfl
  | buffer | window | script =>
    simp only [table, setTable, Scoped.table, Scoped.setTable, bind, Except.bind]
    generalize Scoped.activeId _ _ = active
    cases active <;> rfl

theorem exists_put_of_insert (inserted : space.insert name value = .ok after) :
    ∃ place, space.location name = .ok place ∧ after = space.put value place := by
  rw [insert_eq] at inserted
  cases located : space.location name with
  | error cause =>
    rw [located] at inserted
    cases inserted
  | ok place =>
    rw [located] at inserted
    exact ⟨place, rfl, (Except.ok.inj inserted).symm⟩

/-- To declare a Local name is to put the value in the innermost frame, if there is one. -/
theorem declare_cases (declared : space.declare name value = .ok after) :
    (∃ bare, resolve name = .ok (.local, bare) ∧ space.frames ≠ [] ∧
      after = space.put value (.frame 0 bare)) ∨ space.insert name value = .ok after := by
  obtain ⟨place, resolved, declared⟩ := exists_of_bind_eq_ok declared
  split at declared
  · rename_i bare frame outer frames_eq
    cases declared
    exact .inl ⟨bare, resolved, by simp [frames_eq], by simp [put, alter, frames_eq]; rfl⟩
  · exact .inr declared

/-- The location exists: it is not in a frame beyond the outermost one. -/
def HasLocation (space : Namespace α) : Location → Prop
  | .frame index _ => index < space.frames.length
  | _ => True

theorem localLocation_exists (space : Namespace α) (bare : String) :
    space.HasLocation (space.localLocation bare) := by
  unfold localLocation
  split
  · rename_i index found
    obtain owner | ⟨-, barrier⟩ := Option.or_eq_some_iff.mp found
    · exact visibleIndex?_lt owner
    · exact visibleIndex?_lt barrier
  · trivial

theorem location_exists {location} (found : space.location name = .ok location) :
    space.HasLocation location := by
  unfold Namespace.location at found
  generalize resolve name = resolved at found
  rcases resolved with cause | ⟨scope, bare⟩
  · cases found
  cases scope with
  | global =>
    cases found
    trivial
  | builtin => cases found
  | «local» =>
    cases found
    exact space.localLocation_exists bare
  | buffer | window | script =>
    obtain ⟨id, -, rfl⟩ := Scoped.exists_of_located found
    trivial

/-- A change of one name in the table of a location is seen there, and every other location keeps
its value. -/
theorem valueAt?_alter {location} {change : Table String α → Table String α} {result : Option α}
    (changes : ∀ table name,
      (change table).get? name = if name = location.bare then result else table.get? name)
    (has : space.HasLocation location ∨ result = none) (other : Location) :
    (space.alter change location).valueAt? other =
      if other = location then result else space.valueAt? other := by
  cases location with
  | global | builtin =>
    cases other <;> simp [alter, valueAt?, changes, Location.bare]
    rfl
  | buffer | window | script =>
    cases other <;>
      simp [alter, valueAt?, Scoped.valueAt?_alter, changes, Location.bare, Scoped.get?_getD]
    grind
  | frame index bare =>
    cases other with
    | frame other name =>
      by_cases same : index = other
      · subst same
        cases found : space.frames[index]? with
        | none =>
          obtain inside | rfl := has
          · exact absurd inside (by simpa [HasLocation] using found)
          · simp [alter, valueAt?, found]
        | some frame =>
          simp [alter, valueAt?, found, changes, Location.bare]
          rfl
      · simp [alter, valueAt?, same, Ne.symm same]
    | global | builtin | buffer | window | script => simp [alter, valueAt?]

/-- A value that is put in a location is there, and every other location keeps its value. -/
theorem valueAt?_put {location} (has : space.HasLocation location) (value : α) (other : Location) :
    (space.put value location).valueAt? other =
      if other = location then some value else space.valueAt? other :=
  valueAt?_alter (fun table name => table.get?_insert _ name value) (.inl has) other

/-- A location that is cleared holds nothing, and every other location keeps its value. -/
theorem valueAt?_clear (space : Namespace α) (location other : Location) :
    (space.clear location).valueAt? other =
      if other = location then none else space.valueAt? other :=
  valueAt?_alter (fun table name => table.get?_erase _ name) (.inr rfl) other

/-! ### Where a lookup tries -/

/-- The locations in which a Local name is looked for before the Builtin scope, given the frames
from an index on. -/
def frameReads (bare : String) : Nat → List (Frame α) → List Location
  | _, [] => [.global bare]
  | index, frame :: outer =>
    .frame index bare :: if frame.barrier then [] else frameReads bare (index + 1) outer

/-- The locations outside the Builtin scope in which a name is looked for, one after the other. -/
def owners (space : Namespace α) (name : String) : Except Fault (List Location) := do
  match ← resolve name with
  | (.global, bare) => return [.global bare]
  | (.builtin, _) => return []
  | (.buffer, bare) => return [.buffer (← space.buffers.activeId .buffer) bare]
  | (.window, bare) => return [.window (← space.windows.activeId .window) bare]
  | (.script, bare) => return [.script (← space.scripts.activeId .script) bare]
  | (.local, bare) => return frameReads bare 0 space.frames

/-- The location of the Builtin scope in which a name is looked for last, if there is one. -/
def fallback (name : String) : List Location :=
  match resolve name with
  | .ok (.builtin, bare) | .ok (.local, bare) => [.builtin bare]
  | _ => []

/-- The locations in which a name is looked for, one after the other. -/
def reads (space : Namespace α) (name : String) : Except Fault (List Location) :=
  (space.owners name).map (· ++ fallback name)

theorem valueAt?_frame {frame outer} (split : space.frames.drop index = frame :: outer)
    (bare : String) :
    space.valueAt? (.frame index bare) = frame.bindings.get? bare ∧
      space.frames.drop (index + 1) = outer := by
  have here : space.frames[index]? = some frame := by
    rw [← List.head?_drop, split]
    rfl
  exact ⟨by simp [valueAt?, here], by rw [← List.tail_drop, split]; rfl⟩

theorem findSome?_frameReads (space : Namespace α) (bare : String)
    (split : space.frames.drop index = frames) :
    (frameReads bare index frames).findSome? space.valueAt? =
      (Frame.find? bare frames).or
        (if openToGlobal frames then space.globals.get? bare else none) := by
  induction frames generalizing index with
  | nil => simp [frameReads, valueAt?, Frame.find?, openToGlobal]
  | cons frame outer ih =>
    obtain ⟨value_eq, further⟩ := valueAt?_frame split bare
    simp only [frameReads, List.findSome?_cons, value_eq, Frame.find?]
    cases frame.bindings.get? bare with
    | some value => rfl
    | none =>
      cases stops : frame.barrier with
      | true => simp [openToGlobal, stops]
      | false => simpa [openToGlobal, stops] using ih further

/-- A lookup takes the first value that it meets. -/
theorem find?_eq (space : Namespace α) (name : String) :
    space.find? name = (space.reads name).map (·.findSome? space.valueAt?) := by
  have stored {store : Scoped α} {scope : Scope} {make : ScopeId → Location} {bare : String}
      (holds : ∀ id, space.valueAt? (make id) = store.valueAt? id bare) :
      (store.table scope).map (·.get? bare) =
        ((do return [make (← store.activeId scope)] : Except Fault (List Location)).map
          (· ++ [])).map (·.findSome? space.valueAt?) := by
    cases active : store.activeId scope with
    | error cause => simp [Scoped.table, active, bind, Except.bind, Except.map]
    | ok id =>
      rw [Scoped.get?_of_activeId rfl active]
      simp [bind, Except.bind, pure, Except.pure, Except.map, holds]
  simp only [find?, reads, owners, fallback]
  rcases resolve name with cause | ⟨scope, bare⟩
  · rfl
  cases scope with
  | global | builtin =>
    simp [bind, Except.bind, pure, Except.pure, Except.map, table, valueAt?]
  | «local» =>
    change Except.ok (space.findLocal? bare) =
      .ok ((frameReads bare 0 space.frames ++ [Location.builtin bare]).findSome?
        space.valueAt?)
    rw [List.findSome?_append, findSome?_frameReads space bare List.drop_zero, findLocal?]
    cases Frame.find? bare space.frames with
    | some value => rfl
    | none =>
      cases (if openToGlobal space.frames then space.globals.get? bare else none) with
      | some value => rfl
      | none => simp [valueAt?]
  | buffer | window | script => exact stored fun _ => rfl

theorem exists_valueAt?_of_find? (found : space.find? name = .ok (some value)) :
    ∃ place, space.valueAt? place = some value := by
  rw [find?_eq] at found
  cases tried : space.reads name with
  | error cause =>
    rw [tried] at found
    cases found
  | ok places =>
    rw [tried] at found
    obtain ⟨place, -, bound⟩ := List.exists_of_findSome?_eq_some (Except.ok.inj found)
    exact ⟨place, bound⟩

/-! ### Removing names -/

theorem find?_frameReads (space : Namespace α) (bare : String)
    (split : space.frames.drop index = frames) :
    (frameReads bare index frames).find? (space.valueAt? · |>.isSome) =
      ((visibleIndex? (·.bindings.contains bare) frames).map fun offset =>
          .frame (index + offset) bare).or
        (if openToGlobal frames && space.globals.contains bare then some (.global bare)
          else none) := by
  induction frames generalizing index with
  | nil =>
    cases bound : space.globals.get? bare <;>
      simp [frameReads, valueAt?, visibleIndex?, openToGlobal, contains, bound]
  | cons frame outer ih =>
    obtain ⟨value_eq, further⟩ := valueAt?_frame split bare
    have next (offset : Nat) : index + 1 + offset = index + (offset + 1) := by omega
    cases bound : frame.bindings.get? bare with
    | some value => simp [frameReads, value_eq, visibleIndex?, contains, bound]
    | none =>
      cases stops : frame.barrier with
      | true =>
        simp [frameReads, value_eq, visibleIndex?, openToGlobal, contains, bound, stops]
      | false =>
        simpa [frameReads, value_eq, visibleIndex?, openToGlobal, contains,
          bound, stops, next, Function.comp_def] using ih further

/-- Clears the first location that has a value. -/
def clearFirst? (space : Namespace α) (places : List Location) : Option (Namespace α) :=
  (places.find? (space.valueAt? · |>.isSome)).map space.clear

theorem clearFirst?_singleton (space : Namespace α) (place : Location) :
    space.clearFirst? [place] =
      if (space.valueAt? place).isSome then some (space.clear place) else none := by
  unfold clearFirst?
  cases bound : space.valueAt? place <;> simp [bound]

/-- To remove a name is to clear the first location, outside of the Builtin scope, that has a value.
-/
theorem remove?_eq (writable : ∀ bare, resolve name ≠ .ok (.builtin, bare)) :
    space.remove? name = (space.owners name).map space.clearFirst? := by
  unfold remove? owners
  generalize resolve name = resolved at *
  rcases resolved with cause | ⟨scope, bare⟩
  · rfl
  cases scope with
  | global =>
    change (if space.globals.contains bare then _ else _) = Except.ok (space.clearFirst? [_])
    rw [clearFirst?_singleton]
    exact (apply_ite Except.ok _ _ _).symm
  | builtin => exact absurd rfl (writable bare)
  | «local» =>
    change Except.ok (space.removeLocal? bare) = Except.ok (space.clearFirst? _)
    rw [clearFirst?, find?_frameReads space bare List.drop_zero, removeLocal?, update_eq]
    cases visibleIndex? (·.bindings.contains bare) space.frames with
    | some index =>
      rw [Option.map_some, Option.map_some, Nat.zero_add]
      rfl
    | none =>
      simp only [Option.map_none, Option.none_or]
      split <;> rfl
  | buffer | window | script =>
    simp only [table, setTable, Scoped.table, Scoped.setTable, bind, Except.bind]
    generalize Scoped.activeId _ _ = active
    cases active with
    | error cause => rfl
    | ok id =>
      change (if _ then _ else _) = Except.ok (space.clearFirst? [_])
      rw [clearFirst?_singleton, Scoped.contains_getD]
      exact (apply_ite Except.ok _ _ _).symm

theorem exists_clear_of_remove? (removed : space.remove? name = .ok (some after)) :
    ∃ place, after = space.clear place := by
  by_cases writable : ∀ bare, resolve name ≠ .ok (.builtin, bare)
  · rw [remove?_eq writable] at removed
    cases tried : space.owners name with
    | error cause =>
      rw [tried] at removed
      cases removed
    | ok places =>
      rw [tried] at removed
      obtain ⟨place, -, rfl⟩ := Option.map_eq_some_iff.mp (Except.ok.inj removed)
      exact ⟨place, rfl⟩
  · refine absurd (fun bare resolved => ?_) writable
    simp only [remove?, resolved] at removed
    cases removed

/-! ### What locations keep -/

theorem valueAt?_withFrames {location} (shared : location.isShared) (space : Namespace α)
    (frames : List (Frame α)) :
    { space with frames }.valueAt? location = space.valueAt? location := by
  cases location with
  | frame => cases shared
  | global | builtin | buffer | window | script => rfl

theorem valueAt?_left {location} (shared : location.isShared) (space : Namespace α) :
    (space.leave?.getD space).valueAt? location = space.valueAt? location := by
  unfold leave?
  cases space.frames with
  | nil => rfl
  | cons frame outer => exact valueAt?_withFrames shared space outer

theorem valueAt?_setScript (space : Namespace α) (id : Option ScopeId) (location : Location) :
    (space.setScript id).valueAt? location = space.valueAt? location := by
  cases location <;> rfl

theorem valueAt?_of_insert {location} (inserted : space.insert name value = .ok after)
    (other : space.location name ≠ .ok location) :
    after.valueAt? location = space.valueAt? location := by
  obtain ⟨place, located, rfl⟩ := exists_put_of_insert inserted
  rw [valueAt?_put (location_exists located), if_neg]
  rintro rfl
  exact other located

end Namespace

end Vimlet
