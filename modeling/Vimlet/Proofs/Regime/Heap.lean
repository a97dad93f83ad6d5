import Vimlet.Proofs.Regime.Basic
import Vimlet.Proofs.Table

/-!
# Regimes on the heap

The operations on containers keep to a regime: they put into a container only values that belong to
the heap, and the container itself only if nothing guards against it.
-/

namespace Vimlet

open List

variable {σ α β : Type}
variable {stop : Stop} {act : Mem α} {entries : List (String × Value)}

/-! ### Computations on the heap -/

theorem Run.onHeap_bind (act : Mem α) (next : α → Mem β) :
    (Run.onHeap (act >>= next) : Run σ β) =
      Run.onHeap act >>= fun value => Run.onHeap (next value) := by
  funext session
  simp only [Run.onHeap, bind, EStateM.bind]
  cases act session.heap <;> rfl

namespace Regime

/-- A computation on the heap keeps to the regime. -/
abbrev Handles (regime : Regime σ) (session : Session σ) (post : Heap → α → Prop) (act : Mem α) :
    Prop :=
  regime.Complies session post (Run.onHeap act)

variable {regime : Regime σ}

namespace Kept

variable {host : Host σ} {probe probe' : Probe σ} (kept : regime.Kept host probe probe')
  {session : Session σ} {post : Heap → α → Prop}
include kept
variable {cell : Nat} {items : List Value} {target default : Value}

theorem heap_pure {value} (fine : post session.heap value) :
    regime.Handles session post (Pure.pure value) := kept.pure fine

theorem heap_fault (cause : Fault) : regime.Handles session post (Mem.fault cause) :=
  kept.fault cause

theorem heap_stopped (ordinary : stop.isSignal = false) :
    regime.Handles session post (throw stop) :=
  kept.stopped fun value returns => by rw [returns] at ordinary; cases ordinary

theorem heap_stopped_bind (ordinary : stop.isSignal = false) (next : β → Mem α) :
    regime.Handles session post ((throw stop : Mem β) >>= next) :=
  kept.heap_stopped ordinary

theorem heap_bind {next : α → Mem β} {last : Heap → β → Prop}
    (first : regime.Handles session post act)
    (second : ∀ value after, regime.Leads session after → post after.heap value →
      regime.Handles after last (next value)) : regime.Handles session last (act >>= next) := by
  rw [Handles, Run.onHeap_bind]
  exact kept.bind first second

omit kept in
theorem heap_inspect {next : Heap → Mem α}
    (handles : regime.holds session → regime.Handles session post (next session.heap)) :
    regime.Handles session post (get >>= next) :=
  fun held => handles held held

theorem heap_ofExcept {result} (fine : ∀ value, result = .ok value → post session.heap value) :
    regime.Handles session post (Mem.ofExcept result) := by
  cases result with
  | ok value => exact kept.heap_pure (fine value rfl)
  | error cause => exact kept.heap_fault cause

theorem heap_converted (result : Except Fault α) :
    regime.Handles session (fun _ _ => True) (Mem.ofExcept result) :=
  kept.heap_ofExcept fun _ _ => trivial

theorem heap_mapped (f : α → β) (handles : regime.Handles session post act) :
    regime.Handles session (fun _ _ => True) (f <$> act) := by
  rw [map_eq_pure_bind]
  exact kept.heap_bind handles fun _ _ _ _ => kept.heap_pure trivial

/-! ### Elementary operations -/

theorem modifyList (cell : Nat) {change : ListCell → ListCell}
    (storable : regime.Storable session.heap (.list cell)
      (change (session.heap.listCell cell)).items.toList) :
    regime.Handles session (fun _ _ => True)
      (modify fun heap => { heap with lists := heap.lists.modify cell change }) := by
  intro held
  refine ⟨.rfl, kept.leads held (kept.write held (.modifyList session.heap cell change) ?_), trivial⟩
  exact storable.subset fun value mem => session.heap.mem_modifyList mem

theorem setList (storable : regime.Storable session.heap (.list cell) items) :
    regime.Handles session (fun _ _ => True) (Mem.setList cell items) :=
  kept.modifyList cell storable

theorem growList (storable : regime.Storable session.heap (.list cell) items) :
    regime.Handles session (fun _ _ => True) (Mem.growList cell items) :=
  kept.modifyList cell storable

theorem pushItem {item} (owned : regime.owns session.heap item)
    (fits : regime.Fits (.list cell) item) :
    regime.Handles session (fun _ _ => True) (modify (·.pushItem cell item)) := by
  intro held
  refine kept.modifyList cell ?_ held
  rw [Array.toList_push]
  exact (kept.storable_contents held (.list cell)).append (.cons owned fits nofun)

theorem replaceItem {position item} (owned : regime.owns session.heap item)
    (fits : regime.Fits (.list cell) item) :
    regime.Handles session (fun _ _ => True) (modify (·.setItem cell position item)) := by
  intro held
  refine kept.modifyList cell (fun value mem => ?_) held
  rw [Array.toList_setIfInBounds] at mem
  obtain old | rfl := mem_or_eq_of_mem_set mem
  · exact kept.storable_contents held (.list cell) value old
  · exact ⟨owned, fits⟩

theorem setObject {entries : Table String Value}
    (storable : regime.Storable session.heap (.object cell) entries.values) :
    regime.Handles session (fun _ _ => True) (Mem.setObject cell entries) := by
  intro held
  refine ⟨.rfl, kept.leads held (kept.write held (.setObject session.heap cell entries) ?_), trivial⟩
  exact storable.subset fun value mem => session.heap.mem_setObject mem

theorem newList (owned : regime.Owned session.heap items) :
    regime.Handles session regime.owns (Mem.newList items) := by
  intro held
  have made := kept.make held (.pushList session.heap items)
    (by rwa [Heap.contents_pushList])
  exact ⟨.rfl, kept.leads held made.1, made.2⟩

theorem newObject {entries} (owned : regime.Owned session.heap entries.values) :
    regime.Handles session regime.owns (Mem.newObject entries) := by
  intro held
  have made := kept.make held (.pushObject session.heap entries)
    (by rwa [Heap.contents_pushObject])
  exact ⟨.rfl, kept.leads held made.1, made.2⟩

/-- Serial numbers are no contents. -/
theorem lasts_serial (held : regime.holds session) (nextSerial : Nat) :
    regime.lasts session { session with heap := { session.heap with nextSerial } } := by
  have writes : session.heap.Writes (.list 0) { session.heap with nextSerial } :=
    ⟨fun other => by cases other <;> rfl, fun other _ => by cases other <;> rfl⟩
  exact kept.write held writes (kept.storable_contents held (.list 0))

theorem newRef (name : String) (script : Option ScopeId) :
    regime.Handles session regime.owns (Mem.newRef name script) :=
  fun held => ⟨.rfl, kept.leads held (kept.lasts_serial held _), kept.owns_scalar rfl⟩

theorem newSerials : regime.Handles session (fun _ _ => True) Mem.newSerials :=
  fun held => ⟨.rfl, kept.leads held (kept.lasts_serial held _), trivial⟩

/-! ### Reading containers -/

theorem item (held : regime.holds session) (cell position : Nat) :
    regime.owns session.heap (session.heap.item cell position) := by
  unfold Heap.item
  by_cases within : position < (session.heap.listCell cell).items.size
  · rw [Array.getD_eq_getD_getElem?, Array.getElem?_eq_getElem within, Option.getD_some]
    refine kept.owns_contents (.list cell) held _ ?_
    exact Array.mem_toList_iff.mpr (Array.getElem_mem within)
  · rw [Array.getD_eq_getD_getElem?, Array.getElem?_eq_none (Nat.le_of_not_lt within)]
    exact kept.owns_scalar rfl

theorem entry (held : regime.holds session) (cell : Nat) (key : String)
    (owned : regime.owns session.heap default) :
    regime.owns session.heap (((session.heap.object cell).get? key).getD default) := by
  cases found : (session.heap.object cell).get? key with
  | none => exact owned
  | some value =>
    exact kept.owns_contents (.object cell) held value (Table.mem_values_of_get? found)

theorem index (base key : Value) : regime.Handles session regime.owns (Mem.index base key) := by
  refine heap_inspect fun held => ?_
  cases base with
  | list cell =>
    dsimp only
    split
    · refine kept.heap_bind (kept.heap_converted _) fun index after leads _ => ?_
      split
      · exact kept.heap_pure (leads.owns (kept.item held cell _))
      · exact kept.heap_pure (kept.owns_scalar rfl)
    · exact kept.heap_pure (kept.owns_scalar rfl)
  | str text =>
    dsimp only
    split
    · refine kept.heap_bind (kept.heap_converted _) fun index after leads _ => ?_
      split
      · refine kept.heap_pure (kept.owns_scalar ?_)
        rename_i position _
        cases text.toList[position]? <;> rfl
      · exact kept.heap_pure (kept.owns_scalar rfl)
    · exact kept.heap_pure (kept.owns_scalar rfl)
  | object cell => exact kept.heap_pure (kept.entry held cell _ (kept.owns_scalar rfl))
  | _ => exact kept.heap_pure (kept.owns_scalar rfl)

theorem bound (value : Value) : regime.Handles session (fun _ _ => True) (Mem.bound value) := by
  cases value with
  | nil => exact kept.heap_pure trivial
  | _ => exact kept.heap_mapped _ (kept.heap_converted _)

omit kept in
theorem sliceItems_subset (items : List α) (first last : Option Int) :
    sliceItems items first last ⊆ items := by
  simp only [sliceItems]
  generalize (if last.getD _ < 0 then _ else _ : Int) = stop
  generalize (if first.getD _ < 0 then _ else _ : Int) = start
  split
  · exact nil_subset _
  · exact fun item mem => mem_of_mem_take (mem_of_mem_drop mem)

theorem slice (base first last : Value) :
    regime.Handles session regime.owns (Mem.slice base first last) := by
  cases base with
  | list cell =>
    refine kept.heap_bind (kept.bound first) fun _ _ _ _ => ?_
    refine kept.heap_bind (kept.bound last) fun _ _ _ _ => heap_inspect fun held => ?_
    exact kept.newList ((kept.owns_contents (.list cell) held).subset (sliceItems_subset _ _ _))
  | str text =>
    refine kept.heap_bind (kept.bound first) fun _ _ _ _ => ?_
    exact kept.heap_bind (kept.bound last) fun _ _ _ _ => kept.heap_pure (kept.owns_scalar rfl)
  | _ => exact kept.heap_pure (kept.owns_scalar rfl)

theorem newPairs (owned : regime.Owned session.heap (entries.map (·.2))) :
    regime.Handles session regime.Owned (Mem.newPairs entries) := by
  induction entries generalizing session with
  | nil => exact kept.heap_pure .nil
  | cons entry rest ih =>
    have pair : regime.Owned session.heap [.str entry.1, entry.2] :=
      .cons (kept.owns_scalar rfl) (.cons owned.head .nil)
    refine kept.heap_bind (kept.newList pair) fun made after leads made_owned => ?_
    refine kept.heap_bind (ih (owned.tail.later leads)) fun more later leads' more_owned => ?_
    exact kept.heap_pure (.cons (leads'.owns made_owned) more_owned)

theorem owned_scalars {heap values} (scalars : ∀ value ∈ values, value.handle? = none) :
    regime.Owned heap values :=
  fun value mem => kept.owns_scalar (scalars value mem)

theorem elements (value : Value) : regime.Handles session regime.Owned (Mem.elements value) := by
  refine heap_inspect fun held => ?_
  cases value with
  | list cell => exact kept.heap_pure (kept.owns_contents (.list cell) held)
  | object cell => exact kept.newPairs (kept.owns_contents (.object cell) held)
  | str text =>
    refine kept.heap_pure (kept.owned_scalars fun value mem => ?_)
    obtain ⟨c, _, rfl⟩ := mem_map.mp mem
    rfl
  | _ => exact kept.heap_pure .nil

theorem equal (a b : Value) : regime.Handles session (fun _ _ => True) (Mem.equal a b) := by
  refine heap_inspect fun held => ?_
  split
  · exact kept.heap_pure trivial
  · exact kept.heap_stopped rfl

theorem listCell (value : Value) :
    regime.Handles session (fun _ cell => value = .list cell) (Mem.listCell value) := by
  cases value with
  | list cell => exact kept.heap_pure rfl
  | _ => exact kept.heap_fault _

theorem objectCell (value : Value) :
    regime.Handles session (fun _ cell => value = .object cell) (Mem.objectCell value) := by
  cases value with
  | object cell => exact kept.heap_pure rfl
  | _ => exact kept.heap_fault _

theorem itemsOf (value : Value) : regime.Handles session regime.Owned (Mem.itemsOf value) := by
  refine heap_inspect fun held => kept.heap_bind (kept.listCell value) fun cell after leads _ => ?_
  exact kept.heap_pure ((kept.owns_contents (.list cell) held).later leads)

theorem entriesOf (value : Value) :
    regime.Handles session (fun heap entries => regime.Owned heap entries.values)
      (Mem.entriesOf value) := by
  refine heap_inspect fun held =>
    kept.heap_bind (kept.objectCell value) fun cell after leads _ => ?_
  exact kept.heap_pure ((kept.owns_contents (.object cell) held).later leads)

theorem getItem (container key : Value) (owned : regime.owns session.heap default) :
    regime.Handles session regime.owns (Mem.getItem container key default) := by
  refine heap_inspect fun held => ?_
  cases container with
  | list cell =>
    refine kept.heap_bind (kept.heap_converted _) fun index after leads _ => ?_
    split
    · exact kept.heap_pure (leads.owns ((kept.owns_contents (.list cell) held).getD owned _))
    · exact kept.heap_pure (leads.owns owned)
  | object cell => exact kept.heap_pure (kept.entry held cell _ owned)
  | _ => exact kept.heap_pure owned

/-! ### Changing containers -/

omit kept in
theorem fits_of_not_same {item handle} (different : ¬item.same handle.value = true) :
    regime.Fits handle item := by
  rintro _ rfl
  cases handle <;> simp [Handle.value, Value.same] at different

theorem insert {item} (target_owned : regime.owns session.heap target)
    (item_owned : regime.owns session.heap item) (place : Value) :
    regime.Handles session regime.owns (Mem.insert target item place) := by
  cases target with
  | list cell =>
    simp only [Mem.insert]
    split
    · exact kept.heap_fault _
    · rename_i different
      have fits : regime.Fits (.list cell) item := fits_of_not_same different
      refine kept.heap_bind (kept.heap_converted _) fun index after leads _ => ?_
      split
      · exact kept.heap_stopped_bind rfl _
      · refine heap_inspect fun held => ?_
        have old := kept.storable_contents held (.list cell)
        have storable (cut : Nat) : regime.Storable after.heap (.list cell)
            ((after.heap.list cell).take cut ++ item :: (after.heap.list cell).drop cut) :=
          (old.subset (take_subset _ _)).append
            (.cons (leads.owns item_owned) fits (old.subset (drop_subset _ _)))
        exact kept.heap_bind (kept.growList (storable _)) fun _ last leads' _ =>
          kept.heap_pure (leads'.owns (leads.owns target_owned))
  | _ => exact kept.heap_fault _

theorem append {item} (target_owned : regime.owns session.heap target)
    (item_owned : regime.owns session.heap item) :
    regime.Handles session regime.owns (Mem.append target item) := by
  cases target with
  | list cell =>
    simp only [Mem.append]
    split
    · exact kept.heap_fault _
    · rename_i different
      have fits : regime.Fits (.list cell) item := fits_of_not_same different
      exact kept.heap_bind (kept.pushItem item_owned fits) fun _ after leads _ =>
        kept.heap_pure (leads.owns target_owned)
  | _ => exact kept.heap_fault _

omit kept in
theorem forall_values_mergeEntries {property : Value → Prop} {table}
    (added : ∀ value ∈ entries.map (·.2), property value)
    (old : ∀ value ∈ table.values, property value) (keep : Bool) :
    ∀ value ∈ (Mem.mergeEntries keep entries table).values, property value := by
  induction entries generalizing table with
  | nil => exact old
  | cons entry rest ih =>
    refine ih (fun value mem => added value (mem_cons_of_mem _ mem)) ?_
    dsimp only
    split
    · exact old
    · exact Table.forall_values_insert (added entry.2 mem_cons_self) old entry.1

theorem storable_of_none_same (held : regime.holds session) (source target : Handle)
    (different : ¬((session.heap.contents source).any (·.same target.value)) = true) :
    regime.Storable session.heap target (session.heap.contents source) := by
  refine .of_owned (kept.owns_contents source held) fun value mem => fits_of_not_same fun same => ?_
  exact different (any_eq_true.mpr ⟨value, mem, same⟩)

theorem extend (other place : Value) (owned : regime.owns session.heap target) :
    regime.Handles session regime.owns (Mem.extend target other place) := by
  unfold Mem.extend
  split
  · rename_i cell source
    refine heap_inspect fun held => ?_
    dsimp only
    split
    · exact kept.heap_fault _
    · rename_i different
      have added := kept.storable_of_none_same held (.list source) (.list cell) different
      have old := kept.storable_contents held (.list cell)
      have grown {after : Session σ} (leads : regime.Leads session after) (cut : Nat) :
          regime.Handles after regime.owns (do
            if !(session.heap.list source).isEmpty then
              Mem.growList cell ((session.heap.list cell).take cut ++ session.heap.list source ++
                (session.heap.list cell).drop cut)
            return Value.list cell) := by
        split
        · refine kept.heap_bind (kept.growList ?_) fun _ last leads' _ =>
            kept.heap_pure (leads'.owns (leads.owns owned))
          refine .later ?_ leads
          exact ((old.subset (take_subset _ _)).append added).append
            (old.subset (drop_subset _ _))
        · exact kept.heap_pure (leads.owns owned)
      refine heap_inspect fun _ => ?_
      split
      · exact grown (kept.leads_self held) _
      · exact kept.heap_bind (kept.heap_mapped _ (kept.heap_converted _)) fun cut after leads _ =>
          grown leads cut
  · exact kept.heap_fault _
  · rename_i cell source
    refine heap_inspect fun held => ?_
    dsimp only
    split
    · exact kept.heap_fault _
    · rename_i different
      have added := kept.storable_of_none_same held (.object source) (.object cell) different
      have old := kept.storable_contents held (.object cell)
      exact kept.heap_bind (kept.setObject (forall_values_mergeEntries added old _))
        fun _ after leads _ => kept.heap_pure (leads.owns owned)
  · exact kept.heap_fault _
  · exact kept.heap_fault _

theorem setItem (target key : Value) {item} (owned : regime.owns session.heap item) :
    regime.Handles session (fun _ _ => True) (Mem.setItem target key item) := by
  unfold Mem.setItem
  split
  · exact kept.heap_fault _
  · rename_i different
    split
    · rename_i cell
      have fits : regime.Fits (.list cell) item := fits_of_not_same different
      refine kept.heap_bind (kept.heap_converted _) fun index after leads _ => ?_
      refine heap_inspect fun held => ?_
      split
      · exact kept.replaceItem (leads.owns owned) fits
      · exact kept.heap_fault _
    · rename_i cell
      have fits : regime.Fits (.object cell) item := fits_of_not_same different
      refine heap_inspect fun held => kept.setObject ?_
      exact Table.forall_values_insert ⟨owned, fits⟩ (kept.storable_contents held (.object cell)) _
    · exact kept.heap_fault _

theorem eraseEntry (held : regime.holds session) (cell : Nat) (key : String) :
    regime.Handles session (fun _ _ => True)
      (Mem.setObject cell ((session.heap.object cell).erase key)) :=
  kept.setObject (Table.forall_values_erase (kept.storable_contents held (.object cell)) key)

theorem removeItem (container key last : Value) :
    regime.Handles session regime.owns (Mem.removeItem container key last) := by
  unfold Mem.removeItem
  split
  · rename_i cell
    refine heap_inspect fun held => ?_
    dsimp only
    split
    · rename_i value found
      have owned := kept.owns_contents (.object cell) held value (Table.mem_values_of_get? found)
      exact kept.heap_bind (kept.eraseEntry held cell _) fun _ after leads _ =>
        kept.heap_pure (leads.owns owned)
    · exact kept.heap_fault _
  · refine kept.heap_bind (kept.listCell container) fun cell after _ _ => ?_
    refine heap_inspect fun held => ?_
    have old := kept.storable_contents held (.list cell)
    have owned := kept.owns_contents (.list cell) held
    refine kept.heap_bind (kept.heap_converted _) fun index middle leads _ => ?_
    split
    · exact kept.heap_fault _
    · rename_i first _
      split
      · refine kept.heap_bind (kept.setList ((old.subset ?_).later leads)) fun _ _ leads' _ =>
          kept.heap_pure (leads'.owns (leads.owns (owned.getD (kept.owns_scalar rfl) first)))
        exact eraseIdx_subset
      · refine kept.heap_bind (kept.heap_converted _) fun bound _ leads' _ => ?_
        have removed (count : Nat) :
            ((after.heap.list cell).take (count + 1)).drop first ⊆ after.heap.list cell :=
          fun value mem => mem_of_mem_take (mem_of_mem_drop mem)
        refine kept.heap_bind (kept.newList (((owned.subset (removed _)).later leads).later leads'))
          fun result _ leads'' result_owned => ?_
        refine kept.heap_bind (kept.setList ((((old.subset ?_).later leads).later leads').later
          leads'')) fun _ _ last _ => kept.heap_pure (last.owns result_owned)
        split
        · exact append_subset.mpr ⟨take_subset _ _, drop_subset _ _⟩
        · exact Subset.refl _

end Kept
end Regime
end Vimlet
