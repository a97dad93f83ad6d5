import Vimlet.Namespace

/-!
# What binding and removing names changes

Binding, declaring and removing a name change the frames that a lookup can see, up to the innermost
barrier, and the tables of the other scopes. They keep everything else.
-/

namespace Vimlet

variable {α : Type}
variable {name : String} {value : α}

theorem exists_of_bind_eq_ok {ε β : Type} {act} {next : α → Except ε β} {value}
    (whole : act >>= next = .ok value) : ∃ middle, act = .ok middle ∧ next middle = .ok value := by
  cases act with
  | error cause => cases whole
  | ok middle => exact ⟨middle, rfl, whole⟩

/-- Frames whose bindings may differ up to the innermost barrier, and that are else the same. -/
inductive Frame.Rebound : List (Frame α) → List (Frame α) → Prop where
  | nil : Rebound [] []
  | barrier {frame other} (outer : List (Frame α)) (stops : frame.barrier = true)
      (same : other.barrier = frame.barrier) : Rebound (frame :: outer) (other :: outer)
  | visible {frame other outer others} (opens : frame.barrier = false)
      (same : other.barrier = frame.barrier) :
      Rebound outer others → Rebound (frame :: outer) (other :: others)

namespace Frame.Rebound

variable {before after : List (Frame α)}

theorem refl (frames : List (Frame α)) : Rebound frames frames := by
  induction frames with
  | nil => exact .nil
  | cons frame outer ih =>
    cases stops : frame.barrier with
    | true => exact .barrier outer stops rfl
    | false => exact .visible stops rfl ih

theorem head (frame : Frame α) (outer : List (Frame α)) {other}
    (same : other.barrier = frame.barrier) : Rebound (frame :: outer) (other :: outer) := by
  cases stops : frame.barrier with
  | true => exact .barrier outer stops same
  | false => exact .visible stops same (refl outer)

theorem trans {first second third : List (Frame α)} (before : Rebound first second)
    (after : Rebound second third) : Rebound first third := by
  induction before generalizing third with
  | nil => exact after
  | barrier outer stops same =>
    cases after with
    | barrier _ _ same' => exact .barrier outer stops (same'.trans same)
    | visible opens _ _ =>
      rw [same, stops] at opens
      cases opens
  | visible opens same _ ih =>
    cases after with
    | barrier _ stops _ =>
      rw [same, opens] at stops
      cases stops
    | visible _ same' rest => exact .visible opens (same'.trans same) (ih rest)

theorem length_eq (rebound : Rebound before after) : after.length = before.length := by
  induction rebound with
  | nil => rfl
  | barrier => rfl
  | visible _ _ _ ih => simp [ih]

theorem map_barrier (rebound : Rebound before after) :
    after.map (·.barrier) = before.map (·.barrier) := by
  induction rebound with
  | nil => rfl
  | barrier _ _ same => simp [same]
  | visible _ same _ ih => simp [same, ih]

/-- Frames pushed before may stand on frames that are rebound with them. -/
theorem of_append {pushed frames} (rebound : Rebound (pushed ++ frames) after) :
    ∃ others kept, after = others ++ kept ∧ Rebound frames kept := by
  induction pushed generalizing after with
  | nil => exact ⟨[], after, rfl, rebound⟩
  | cons frame pushed ih =>
    cases rebound with
    | @barrier _ other _ _ _ => exact ⟨other :: pushed, frames, rfl, refl frames⟩
    | @visible _ other _ _ _ _ rest =>
      obtain ⟨others, kept, rfl, inner⟩ := ih rest
      exact ⟨other :: others, kept, rfl, inner⟩

theorem update {found change} (updated : update found change before = some after)
    (keeps : ∀ frame, (change frame).barrier = frame.barrier) : Rebound before after := by
  induction before generalizing after with
  | nil => cases updated
  | cons frame outer ih =>
    unfold Frame.update at updated
    split at updated
    · cases updated
      exact head frame outer (keeps frame)
    · split at updated
      · cases updated
      · rename_i opens
        obtain ⟨others, inner, rfl⟩ := Option.map_eq_some_iff.mp updated
        exact .visible (by simpa using opens) rfl (ih inner)

end Frame.Rebound

namespace Namespace

variable {before after : Namespace α}

/-- What a change of bindings keeps. -/
structure Updated (before after : Namespace α) : Prop where
  frames : Frame.Rebound before.frames after.frames
  builtins : after.builtins = before.builtins
  buffer : after.buffers.active = before.buffers.active
  window : after.windows.active = before.windows.active
  script : after.scripts.active = before.scripts.active

theorem Updated.depth (updated : Updated before after) :
    after.depth = before.depth := updated.frames.length_eq

theorem Updated.refl (space : Namespace α) : Updated space space :=
  ⟨.refl _, rfl, rfl, rfl, rfl⟩

theorem setTable_updated {scope table} (writable : scope ≠ .builtin)
    (set : before.setTable scope table = .ok after) : Updated before after := by
  cases scope with
  | builtin => exact absurd rfl writable
  | global =>
    cases set
    exact ⟨.refl _, rfl, rfl, rfl, rfl⟩
  | «local» =>
    cases set
    exact .refl _
  | buffer | window | script =>
    obtain ⟨store, stored, same⟩ := exists_of_bind_eq_ok set
    obtain ⟨id, -, store_eq⟩ := exists_of_bind_eq_ok stored
    cases same
    cases store_eq
    exact ⟨.refl _, rfl, rfl, rfl, rfl⟩

theorem insertLocal_updated (space : Namespace α) (bare : String) (value : α) :
    Updated space (space.insertLocal bare value) := by
  unfold insertLocal
  split
  · rename_i updated
    exact ⟨.update updated fun _ => rfl, rfl, rfl, rfl, rfl⟩
  · split
    · rename_i updated
      exact ⟨.update updated fun _ => rfl, rfl, rfl, rfl, rfl⟩
    · exact ⟨.refl _, rfl, rfl, rfl, rfl⟩

theorem insert_updated (inserted : before.insert name value = .ok after) :
    Updated before after := by
  obtain ⟨place, -, inserted⟩ := exists_of_bind_eq_ok inserted
  split at inserted
  · cases inserted
  · cases inserted
    exact insertLocal_updated before _ value
  · rename_i scope bare writable _
    obtain ⟨table, -, set⟩ := exists_of_bind_eq_ok inserted
    exact setTable_updated writable set

theorem declare_updated (declared : before.declare name value = .ok after) :
    Updated before after := by
  obtain ⟨place, -, declared⟩ := exists_of_bind_eq_ok declared
  split at declared
  · rename_i frame outer frames_eq
    cases declared
    refine ⟨?_, rfl, rfl, rfl, rfl⟩
    rw [frames_eq]
    exact .head frame outer rfl
  · exact insert_updated declared

theorem removeLocal_updated {bare} (removed : before.removeLocal? bare = some after) :
    Updated before after := by
  unfold removeLocal? at removed
  split at removed
  · rename_i updated
    cases removed
    exact ⟨.update updated fun _ => rfl, rfl, rfl, rfl, rfl⟩
  · split at removed
    · cases removed
      exact ⟨.refl _, rfl, rfl, rfl, rfl⟩
    · cases removed

theorem remove_updated (removed : before.remove? name = .ok (some after)) :
    Updated before after := by
  obtain ⟨place, -, removed⟩ := exists_of_bind_eq_ok removed
  split at removed
  · cases removed
  · exact removeLocal_updated (Except.ok.inj removed)
  · rename_i scope bare writable _
    obtain ⟨table, -, removed⟩ := exists_of_bind_eq_ok removed
    split at removed
    · obtain ⟨space, set, ⟨⟩⟩ := exists_of_bind_eq_ok removed
      exact setTable_updated writable set
    · cases removed

end Namespace

end Vimlet
