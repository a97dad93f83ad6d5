import Vimlet.Proofs.Namespace.Location
import Vimlet.Session.Entry

/-!
# What a namespace holds

A property of all values that are bound in a namespace, in whatever scope and frame. A lookup finds
such a value, and the operations on namespaces bind no other values than those that they are given.
-/

namespace Vimlet

open Table

variable {α : Type} {property : α → Prop}
variable {value : α} {store : Scoped α}

/-- A property of all values in a table. -/
def Table.All {κ : Type} (property : α → Prop) (table : Table κ α) : Prop :=
  ∀ value ∈ table.values, property value

def Scoped.All (property : α → Prop) (store : Scoped α) : Prop :=
  store.tables.All (Table.All property)

structure Namespace.All (property : α → Prop) (space : Namespace α) : Prop where
  globals : space.globals.All property
  builtins : space.builtins.All property
  buffers : space.buffers.All property
  windows : space.windows.All property
  scripts : space.scripts.All property
  frames : ∀ frame ∈ space.frames, frame.bindings.All property

theorem Scoped.All.alter {change : Table String α → Table String α} (all : store.All property)
    (changes : ∀ table, table.All property → (change table).All property) (id : ScopeId) :
    (store.alter id change).All property := by
  refine forall_values_insert (changes _ ?_) all id
  cases held : store.tables.get? id with
  | none => exact nofun
  | some table => exact all table (mem_values_of_get? held)

theorem Scoped.All.valueAt? (all : store.All property) {id bare}
    (found : store.valueAt? id bare = some value) : property value := by
  obtain ⟨table, held, bound⟩ := Option.bind_eq_some_iff.mp found
  exact all table (mem_values_of_get? held) value (mem_values_of_get? bound)

namespace Namespace.All

variable {space : Namespace α} (all : space.All property) {name : String} {after : Namespace α}
include all

theorem mono {weaker : α → Prop}
    (weaken : ∀ value, property value → weaker value) : space.All weaker where
  globals value mem := weaken value (all.globals value mem)
  builtins value mem := weaken value (all.builtins value mem)
  buffers table mem value bound := weaken value (all.buffers table mem value bound)
  windows table mem value bound := weaken value (all.windows table mem value bound)
  scripts table mem value bound := weaken value (all.scripts table mem value bound)
  frames frame mem value bound := weaken value (all.frames frame mem value bound)

theorem valueAt? {place} (found : space.valueAt? place = some value) : property value := by
  cases place with
  | global bare => exact all.globals value (mem_values_of_get? found)
  | builtin bare => exact all.builtins value (mem_values_of_get? found)
  | buffer id bare => exact all.buffers.valueAt? found
  | window id bare => exact all.windows.valueAt? found
  | script id bare => exact all.scripts.valueAt? found
  | frame index bare =>
    obtain ⟨frame, at_index, bound⟩ := Option.bind_eq_some_iff.mp found
    exact all.frames frame (List.mem_of_getElem? at_index) value (mem_values_of_get? bound)

theorem find? (found : space.find? name = .ok (some value)) : property value := by
  obtain ⟨place, bound⟩ := exists_valueAt?_of_find? found
  exact all.valueAt? bound

/-! ### Changes -/

theorem alter {change : Table String α → Table String α}
    (changes : ∀ table, table.All property → (change table).All property) (place : Location) :
    (space.alter change place).All property := by
  cases place with
  | global => exact { all with globals := changes _ all.globals }
  | builtin => exact { all with builtins := changes _ all.builtins }
  | buffer id => exact { all with buffers := all.buffers.alter changes id }
  | window id => exact { all with windows := all.windows.alter changes id }
  | script id => exact { all with scripts := all.scripts.alter changes id }
  | frame index =>
    refine { all with frames := fun frame mem => ?_ }
    change frame ∈ space.frames.modify index _ at mem
    obtain ⟨position, at_position⟩ := List.mem_iff_getElem?.mp mem
    rw [List.getElem?_modify, Option.map_eq_map, Option.map_eq_some_iff] at at_position
    obtain ⟨old, old_at, rfl⟩ := at_position
    have old_all := all.frames old (List.mem_of_getElem? old_at)
    split
    · exact changes _ old_all
    · exact old_all

theorem put (new : property value) (place : Location) : (space.put value place).All property :=
  all.alter (fun _ old => forall_values_insert new old _) place

theorem clear (place : Location) : (space.clear place).All property :=
  all.alter (fun _ old => forall_values_erase old _) place

theorem insert (new : property value)
    (inserted : space.insert name value = .ok after) : after.All property := by
  obtain ⟨place, -, rfl⟩ := exists_put_of_insert inserted
  exact all.put new place

theorem declare (new : property value)
    (declared : space.declare name value = .ok after) : after.All property := by
  obtain ⟨bare, -, -, rfl⟩ | inserted := declare_cases declared
  · exact all.put new (.frame 0 bare)
  · exact all.insert new inserted

theorem remove (removed : space.remove? name = .ok (some after)) : after.All property := by
  obtain ⟨place, rfl⟩ := exists_clear_of_remove? removed
  exact all.clear place

theorem insertBuiltin (new : property value) (bare : String) :
    (space.insertBuiltin bare value).All property :=
  { all with builtins := forall_values_insert new all.builtins bare }

theorem setScript (id : Option ScopeId) :
    (space.setScript id).All property := { all with scripts := all.scripts }

theorem enter (barrier : Bool) : (space.enter barrier).All property :=
  { all with frames := List.forall_mem_cons.mpr ⟨nofun, all.frames⟩ }

theorem leave : (space.leave?.getD space).All property := by
  unfold Namespace.leave?
  split
  · exact all
  · rename_i frame outer frames_eq
    have old := all.frames
    rw [frames_eq] at old
    exact { all with frames := (List.forall_mem_cons.mp old).2 }

theorem cutTo (depth : Nat) : (space.cutTo depth).All property :=
  { all with frames := fun frame mem => all.frames frame (List.mem_of_mem_drop mem) }

end Namespace.All

end Vimlet
